import LiveRecord.Flow.View

/-!
# What a view knows of its inputs

A slot shows the event that its input heard last (`Slot.shows_hear`), and when the slots show loaded
values, these are the values that the view composes (`View.cachedValues?_of_shows`).
-/

set_option autoImplicit false

namespace LiveRecord.Flow

variable {α β γ : Type}

theorem mapM_eq_some_iff {f : α → Option γ} {list : List α} {values : List γ} :
    list.mapM f = some values ↔ list.map f = values.map some := by
  induction list generalizing values with
  | nil => cases values <;> simp
  | cons head tail ih =>
    rw [List.mapM_cons]
    cases hhead : f head with
    | none => cases values <;> simp [hhead]
    | some value =>
      cases values with
      | nil => simp [Option.bind_eq_some_iff]
      | cons first rest =>
        simp only [Option.bind_eq_bind, Option.bind_eq_some_iff, List.map_cons, hhead]
        constructor
        · rintro ⟨_, hvalue, others, hothers, hvalues⟩
          obtain rfl := Option.some.inj hvalue
          obtain ⟨rfl, rfl⟩ := List.cons.inj (Option.some.inj hvalues)
          rw [ih.mp hothers]
        · intro h
          obtain ⟨hfirst, hothers⟩ := List.cons.inj h
          obtain rfl := Option.some.inj hfirst
          exact ⟨value, rfl, rest, ih.mpr hothers, rfl⟩

theorem exists_map_eq_map_some {f : α → Option γ} {list : List α}
    (h : ∀ a ∈ list, (f a).isSome) : ∃ values : List γ, list.map f = values.map some := by
  induction list with
  | nil => exact ⟨[], rfl⟩
  | cons head tail ih =>
    obtain ⟨first, hfirst⟩ := Option.isSome_iff_exists.mp (h head List.mem_cons_self)
    obtain ⟨rest, hrest⟩ := ih fun a ha ↦ h a (List.mem_cons_of_mem _ ha)
    exact ⟨first :: rest, by rw [List.map_cons, hfirst, hrest, List.map_cons]⟩

namespace Slot

/-- What a slot becomes when its input hears an event. -/
def hear (event : Event α) (slot : Slot α) : Slot α :=
  match event with
  | .pending => { slot with status := .pending }
  | .loaded value => { status := .loaded, cached := some value }
  | .failed _ => { slot with status := .failed }

/-- The slot is as it is after its input has heard the event. -/
def Shows (event : Event α) (slot : Slot α) : Prop :=
  match event with
  | .pending => slot.status = .pending
  | .loaded value => slot = { status := .loaded, cached := some value }
  | .failed _ => slot.status = .failed

theorem shows_hear (event : Event α) (slot : Slot α) : (slot.hear event).Shows event := by
  cases event <;> rfl

theorem Shows.value {slot : Slot α} {event : Event α} (h : slot.Shows event)
    (hloaded : slot.status = .loaded) :
    ∃ value, event = .loaded value ∧ slot = { status := .loaded, cached := some value } := by
  cases event with
  | pending => simp [Shows, hloaded] at h
  | loaded value => exact ⟨value, rfl, h⟩
  | failed error => simp [Shows, hloaded] at h

end Slot

namespace View

variable {view : View α β} {slot : Nat} {event : Event α}

theorem cachedValues?_eq_some_iff {values : List α} :
    view.cachedValues? = some values ↔ view.slots.map (·.cached) = values.map some :=
  mapM_eq_some_iff

/-! ### What absorbing an event does -/

theorem absorb_of_disposed (slot : Nat) (event : Event α) (h : view.disposed) :
    ∃ slots, (event.isLoaded = false → slots = view.slots) ∧
      view.absorb slot event = { view with slots } := by
  cases event with
  | loaded value =>
    refine ⟨view.slots.modify slot fun s ↦ { s with cached := some value }, fun hloaded ↦ ?_, ?_⟩
    · simp [Event.isLoaded, Event.value?] at hloaded
    · simp [absorb, cache, h]
  | _ => exact ⟨view.slots, fun _ ↦ rfl, by simp only [absorb, if_pos h]⟩

theorem absorb_pending (h : view.disposed = false) :
    view.absorb slot .pending = { view with slots := view.slots.modify slot (·.hear .pending) } := by
  simp only [absorb, h, mark]
  rfl

theorem absorb_loaded (value : α) (h : view.disposed = false) :
    view.absorb slot (.loaded value) =
      { view with slots := view.slots.modify slot (·.hear (.loaded value)), stale := true } := by
  simp only [absorb, h, mark, cache, List.modify_modify_eq]
  rfl

theorem absorb_failed (error : SourceError) (h : view.disposed = false) :
    view.absorb slot (.failed error) =
      { view with
        slots := view.slots.modify slot (·.hear (.failed error))
        status := .failed error
        failures := view.failures ++ [error] } := by
  simp only [absorb, h, mark]
  rfl

theorem length_slots_absorb (slot : Nat) (event : Event α) (view : View α β) :
    (view.absorb slot event).slots.length = view.slots.length := by
  unfold absorb
  cases event <;> dsimp only <;> split <;> simp [cache, mark]

theorem composer_absorb (slot : Nat) (event : Event α) (view : View α β) :
    (view.absorb slot event).composer = view.composer := by
  unfold absorb
  cases event <;> dsimp only <;> split <;> rfl

theorem listeners_absorb (slot : Nat) (event : Event α) (view : View α β) :
    (view.absorb slot event).listeners = view.listeners := by
  unfold absorb
  cases event <;> dsimp only <;> split <;> rfl

theorem inputs_absorb (slot : Nat) (event : Event α) (view : View α β) :
    (view.absorb slot event).inputs = view.inputs := by
  unfold absorb
  cases event <;> dsimp only <;> split <;> rfl

theorem composing_absorb (slot : Nat) (event : Event α) (view : View α β) :
    (view.absorb slot event).composing = view.composing := by
  unfold absorb
  cases event <;> dsimp only <;> split <;> rfl

theorem lent_absorb (slot : Nat) (event : Event α) (view : View α β) :
    (view.absorb slot event).lent = view.lent := by
  unfold absorb
  cases event <;> dsimp only <;> split <;> rfl

theorem live_absorb (slot : Nat) (event : Event α) (view : View α β) :
    (view.absorb slot event).live = view.live := by
  unfold absorb
  cases event <;> dsimp only <;> split <;> rfl

theorem owned_absorb (slot : Nat) (event : Event α) (view : View α β) :
    (view.absorb slot event).owned = view.owned := by
  unfold absorb
  cases event <;> dsimp only <;> split <;> rfl

/-- Assumes: a view that is not disposed of. -/
theorem slots_absorb (h : view.disposed = false) :
    (view.absorb slot event).slots = view.slots.modify slot (·.hear event) := by
  cases event with
  | pending => rw [absorb_pending h]
  | loaded value => rw [absorb_loaded value h]
  | failed error => rw [absorb_failed error h]

theorem slots_absorb_congr {other : View α β} (hslots : other.slots = view.slots)
    (hdisposed : other.disposed = view.disposed) :
    (other.absorb slot event).slots = (view.absorb slot event).slots := by
  cases hd : view.disposed with
  | true => cases event <;> simp [absorb, cache, hslots, hdisposed, hd]
  | false => rw [slots_absorb hd, slots_absorb (hdisposed.trans hd), hslots]

/-- A view that was disposed of keeps values, and does not take note of events. -/
theorem map_status_absorb (event : Event α) (h : view.disposed) :
    (view.absorb slot event).slots.map (·.status) = view.slots.map (·.status) := by
  cases event with
  | loaded value =>
    have hcached : (view.absorb slot (.loaded value)).slots =
        view.slots.modify slot fun s ↦ { s with cached := some value } := by simp [absorb, cache, h]
    rw [hcached]
    refine List.ext_getElem? fun k ↦ ?_
    rw [List.getElem?_map, List.getElem?_map, List.getElem?_modify]
    cases view.slots[k]? with
    | none => rfl
    | some s => by_cases hk : slot = k <;> simp [hk]
  | _ => simp only [absorb, if_pos h]

theorem allLoaded_eq (view : View α β) :
    view.allLoaded = (view.slots.map (·.status)).all (· == .loaded) := by
  rw [allLoaded, List.all_map]
  rfl

theorem cachedValues?_congr {other : View α β}
    (h : other.slots.map (·.cached) = view.slots.map (·.cached)) :
    other.cachedValues? = view.cachedValues? := by
  have hmap : ∀ v : View α β, v.cachedValues? = (v.slots.map (·.cached)).mapM id := fun v ↦ by
    rw [List.mapM_map, cachedValues?]
    rfl
  rw [hmap, hmap, h]

/-- Assumes: an event that carries no value. -/
theorem map_cached_modify_hear {slots : List (Slot α)} (hevent : event.isLoaded = false) :
    (slots.modify slot (·.hear event)).map (·.cached) = slots.map (·.cached) := by
  refine List.ext_getElem? fun k ↦ ?_
  rw [List.getElem?_map, List.getElem?_map, List.getElem?_modify]
  cases slots[k]? with
  | none => rfl
  | some s =>
    by_cases hk : slot = k
    · cases event with
      | loaded value => simp [Event.isLoaded, Event.value?] at hevent
      | _ => simp [hk, Slot.hear]
    · simp [hk]

/-! ### Whether every input is loaded -/

/-- Assumes: an input that hears an event that is not a loaded one. -/
theorem all_modify_hear {slots : List (Slot α)} (hslot : slot < slots.length)
    (hevent : event.isLoaded = false) :
    (slots.modify slot (·.hear event)).all (·.status == .loaded) = false := by
  rw [List.all_eq_false]
  refine ⟨slots[slot].hear event, ?_, ?_⟩
  · rw [List.mem_iff_getElem?]
    exact ⟨slot, by simp [hslot]⟩
  · cases event with
    | loaded value => simp [Event.isLoaded, Event.value?] at hevent
    | _ => simp [Slot.hear]

/-- Assumes: every slot shows its event, and every event is a loaded one. -/
theorem slots_of_shows {events : Nat → Event α} {values : List α}
    (hshows : ∀ (k : Nat) (s : Slot α), view.slots[k]? = some s → s.Shows (events k))
    (hvalues : (List.range view.slots.length).map events = values.map .loaded) :
    view.slots = values.map fun value ↦ { status := .loaded, cached := some value } := by
  have hlength : view.slots.length = values.length := by simpa using congrArg List.length hvalues
  refine List.ext_getElem (by simpa using hlength) fun k hk hk' ↦ ?_
  have hbound : k < values.length := hlength ▸ hk
  have hvalue : events k = .loaded values[k] := by
    have hget := congrArg (·[k]?) hvalues
    simpa [hk, hbound] using hget
  have hslot := hshows k _ (List.getElem?_eq_getElem hk)
  rw [hvalue] at hslot
  rw [List.getElem_map]
  exact hslot

theorem allLoaded_and_cachedValues?_of_slots {values : List α}
    (h : view.slots = values.map fun value ↦ { status := .loaded, cached := some value }) :
    view.allLoaded ∧ view.cachedValues? = some values := by
  constructor
  · simp [allLoaded, h]
  · rw [cachedValues?_eq_some_iff, h, List.map_map]
    rfl

/-- Assumes: every slot shows its event, and every slot is loaded. -/
theorem exists_values_of_shows {events : Nat → Event α}
    (hshows : ∀ (k : Nat) (s : Slot α), view.slots[k]? = some s → s.Shows (events k))
    (hloaded : view.allLoaded) :
    ∃ values, view.cachedValues? = some values ∧
      (List.range view.slots.length).map events = values.map .loaded := by
  have hvalue : ∀ (k : Nat) (s : Slot α), view.slots[k]? = some s →
      ∃ value, events k = .loaded value ∧ s = { status := .loaded, cached := some value } := by
    intro k s hs
    refine (hshows k s hs).value ?_
    simpa using List.all_eq_true.mp hloaded s (List.mem_of_getElem? hs)
  obtain ⟨values, hvalues⟩ : ∃ values : List α, view.slots.map (·.cached) = values.map some := by
    refine exists_map_eq_map_some fun s hs ↦ ?_
    obtain ⟨k, hk⟩ := List.mem_iff_getElem?.mp hs
    obtain ⟨value, -, rfl⟩ := hvalue k s hk
    rfl
  refine ⟨values, cachedValues?_eq_some_iff.mpr hvalues, List.ext_getElem? fun k ↦ ?_⟩
  have hget := congrArg (·[k]?) hvalues
  simp only [List.getElem?_map] at hget ⊢
  by_cases hk : k < view.slots.length
  · obtain ⟨value, hevent, hslot⟩ := hvalue k view.slots[k] (List.getElem?_eq_getElem hk)
    simp only [List.getElem?_eq_getElem hk, hslot, Option.map_some] at hget
    rw [List.getElem?_range hk, Option.map_some, hevent]
    cases hv : values[k]? with
    | none => simp [hv] at hget
    | some other => simpa [hv] using hget
  · rw [List.getElem?_eq_none (by simpa using hk)]
    rw [List.getElem?_eq_none (by simpa using hk)] at hget
    cases hv : values[k]? with
    | none => rfl
    | some other => simp [hv] at hget

end View

end LiveRecord.Flow
