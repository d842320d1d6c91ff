import Mathlib.Data.List.Forall2
import LiveRecord.Proofs.Flow.Emission
import LiveRecord.Proofs.Flow.Reference

/-!
# Views after emissions

While callbacks only record, an input shows the event that its source emitted last, whatever was
emitted between (`World.Connects.emitAll`). What a view shows meanwhile depends on the order of the
emissions, and so does how often it composes. But the last event that reaches a view settles what it
shows: if it is a failure, an input is not loaded, and if it is a value, the view composes with it.
So a view shows what its composer makes of the values once all of its inputs are loaded, in whatever
order they came (`World.Connects.ready_emitAll`).
-/

set_option autoImplicit false

namespace LiveRecord.Flow

variable {α β : Type}

/-! ### What one view makes of an event -/

namespace View

/-- The view is in use, and it does not go through its news. -/
structure Idle (v : View α β) : Prop where
  live : v.live
  disposed : v.disposed = false
  composing : v.composing = false

/-- If every input is loaded, the view shows what its composer makes of the values. -/
def Agreed (answers : Nat → List α → β) (v : View α β) : Prop :=
  v.allLoaded → ∀ values, v.cachedValues? = some values →
    v.status = .ready (v.composer.apply answers values)

/-- The view is still the same one: its inputs and its composer have not changed. -/
structure Remains (v v' : View α β) : Prop where
  inputs : v'.inputs = v.inputs
  composer : v'.composer = v.composer
  slots : v'.slots.length = v.slots.length

theorem Remains.refl (v : View α β) : v.Remains v := ⟨rfl, rfl, rfl⟩

theorem Remains.trans {v v' v'' : View α β} (hfirst : v.Remains v') (hlast : v'.Remains v'') :
    v.Remains v'' :=
  ⟨hlast.inputs.trans hfirst.inputs, hlast.composer.trans hfirst.composer,
    hlast.slots.trans hfirst.slots⟩

variable {answers : Nat → List α → β} {v : View α β} {slot : Nat} {event : Event α}

/-- What a view that goes through its news changes: what it shows, if a value is due. -/
theorem Idle.flushed (h : v.Idle) (answers : Nat → List α → β) : ∃ status emissions,
    v.flushed answers = { v with
      dirty := false
      composing := false
      failures := []
      stale := v.stale && !v.allLoaded
      status
      emissions } ∧
    (v.dueValue? answers = none ∧ status = v.status ∨
      ∃ value, v.dueValue? answers = some value ∧ status = .ready value) := by
  let news : View α β := { v with dirty := false, failures := [] }
  have hnews : v.flushed answers = news.composed answers := by
    simp only [View.flushed, h.composing, h.disposed, Bool.false_eq_true, if_false, news]
  have hdue : news.dueValue? answers = v.dueValue? answers := rfl
  cases hvalue : v.dueValue? answers with
  | none =>
    refine ⟨v.status, v.emissions, ?_, .inl ⟨rfl, rfl⟩⟩
    rw [hnews, composed, hdue, hvalue]
    rfl
  | some value =>
    refine ⟨.ready value, v.emissions + 1, ?_, .inr ⟨value, rfl, rfl⟩⟩
    rw [hnews, composed, hdue, hvalue]
    rfl

theorem Idle.remains_flushed (h : v.Idle) (answers : Nat → List α → β) :
    v.Remains (v.flushed answers) ∧ (v.flushed answers).Idle ∧
      (v.flushed answers).slots = v.slots := by
  obtain ⟨status, emissions, heq, -⟩ := h.flushed answers
  rw [heq]
  exact ⟨⟨rfl, rfl, rfl⟩, ⟨h.live, h.disposed, rfl⟩, rfl⟩

/-- A view that has gone through its news shows what its composer makes of its values. Assumes: it
did so before, or there is news. -/
theorem Idle.agreed_flushed (h : v.Idle) (hagreed : v.Agreed answers ∨ v.stale) :
    (v.flushed answers).Agreed answers := by
  obtain ⟨status, emissions, heq, hstatus⟩ := h.flushed answers
  rw [heq]
  intro (hloaded : v.allLoaded) values (hvalues : v.cachedValues? = some values)
  show status = .ready (v.composer.apply answers values)
  have hdue : v.dueValue? answers =
      if v.stale then some (v.composer.apply answers values) else none := by
    simp [dueValue?, isDue, hloaded, hvalues]
  cases hstale : v.stale with
  | true =>
    rw [hdue, hstale, if_pos rfl] at hstatus
    obtain ⟨hnone, -⟩ | ⟨value, hvalue, rfl⟩ := hstatus
    · contradiction
    · rw [Option.some.inj hvalue]
  | false =>
    rw [hdue, hstale, if_neg (by simp)] at hstatus
    obtain ⟨-, rfl⟩ | ⟨value, hvalue, -⟩ := hstatus
    · exact hagreed.resolve_right (by simp [hstale]) hloaded values hvalues
    · contradiction

theorem Idle.absorb (h : v.Idle) (slot : Nat) (event : Event α) : (v.absorb slot event).Idle where
  live := by rw [live_absorb, h.live]
  disposed := by
    cases event with
    | pending => rw [absorb_pending h.disposed, h.disposed]
    | loaded value => rw [absorb_loaded value h.disposed, h.disposed]
    | failed error => rw [absorb_failed error h.disposed, h.disposed]
  composing := by rw [composing_absorb, h.composing]

theorem remains_absorb (slot : Nat) (event : Event α) (v : View α β) :
    v.Remains (v.absorb slot event) :=
  ⟨inputs_absorb slot event v, composer_absorb slot event v, length_slots_absorb slot event v⟩

/-- An input hears an event inside a tick. -/
theorem Idle.takeIn (h : v.Idle) (answers : Nat → List α → β) (slot : Nat) (event : Event α) :
    v.Remains (v.takeIn answers slot event) ∧ (v.takeIn answers slot event).Idle ∧
      (v.takeIn answers slot event).slots = v.slots.modify slot (·.hear event) := by
  have hheard := h.absorb slot event
  have hremains := remains_absorb slot event v
  have hslots : (v.absorb slot event).slots = v.slots.modify slot (·.hear event) :=
    slots_absorb h.disposed
  rcases takeIn_cases answers slot event with heq | heq | heq
  · rw [heq]
    exact ⟨hremains, hheard, hslots⟩
  · rw [heq]
    exact ⟨⟨hremains.inputs, hremains.composer, hremains.slots⟩,
      ⟨hheard.live, hheard.disposed, hheard.composing⟩, hslots⟩
  · rw [heq]
    obtain ⟨hflushed, hidle, hsame⟩ := hheard.remains_flushed answers
    exact ⟨hremains.trans hflushed, hidle, hsame.trans hslots⟩

/-- After an event, an input is not loaded, or the view is about to compose. -/
theorem Idle.agreed_takeIn (h : v.Idle) (hslot : slot < v.slots.length) :
    (v.takeIn answers slot event).Agreed answers ∨
      (v.takeIn answers slot event).stale ∧ (v.takeIn answers slot event).scheduled := by
  have hunloaded : event.isLoaded = false → (v.takeIn answers slot event).Agreed answers := by
    intro hevent hloaded
    rw [allLoaded, (h.takeIn answers slot event).2.2, all_modify_hear hslot hevent] at hloaded
    contradiction
  cases event with
  | pending => exact .inl (hunloaded rfl)
  | failed error => exact .inl (hunloaded rfl)
  | loaded value =>
    right
    rw [(takeIn_loaded answers slot value h.disposed).1, absorb_loaded value h.disposed]
    exact ⟨rfl, rfl⟩

/-- Some inputs of a view hear an event inside a tick. -/
theorem Idle.foldl_takeIn (h : v.Idle) (answers : Nat → List α → β) (event : Event α)
    (slots : List Nat) (hslots : ∀ k ∈ slots, k < v.slots.length) :
    let v' := slots.foldl (fun v k ↦ v.takeIn answers k event) v
    v.Remains v' ∧ v'.Idle ∧
      (∀ k ∈ slots, ∀ s, v'.slots[k]? = some s → s.Shows event) ∧
      (∀ k, k ∉ slots → v'.slots[k]? = v.slots[k]?) ∧
      (slots ≠ [] → v'.Agreed answers ∨ v'.stale ∧ v'.scheduled) := by
  induction slots using List.reverseRecOn with
  | nil => exact ⟨.refl v, h, by simp, fun _ _ ↦ rfl, fun hnone ↦ absurd rfl hnone⟩
  | append_singleton slots slot ih =>
    obtain ⟨hremains, hidle, hshows, hkept, -⟩ := ih fun k hk ↦
      hslots k (List.mem_append_left _ hk)
    have hslot := hslots slot (List.mem_append_right _ List.mem_cons_self)
    rw [List.foldl_append, List.foldl_cons, List.foldl_nil]
    obtain ⟨hlast, hstill, hheard⟩ := hidle.takeIn answers slot event
    refine ⟨hremains.trans hlast, hstill, fun k hk s hs ↦ ?_, fun k hk ↦ ?_,
      fun _ ↦ hidle.agreed_takeIn (hremains.slots ▸ hslot)⟩
    · rw [hheard, List.getElem?_modify] at hs
      obtain ⟨old, hold, rfl⟩ := Option.map_eq_some_iff.mp hs
      by_cases hself : slot = k
      · rw [if_pos hself]
        exact Slot.shows_hear event old
      · rw [if_neg hself]
        have hold' : k ∈ slots :=
          (List.mem_append.mp hk).resolve_right (by simpa using Ne.symm hself)
        exact hshows k hold' old hold
    · rw [List.mem_append, List.mem_singleton, not_or] at hk
      rw [hheard, List.getElem?_modify_ne _ _ (Ne.symm hk.2), hkept k hk.1]

end View

/-! ### What an emission makes of one view -/

/-- The events that are emitted on a source. -/
def emittedOn (source : SourceId) (emissions : List (SourceId × Event α)) : List (Event α) :=
  emissions.filterMap fun emission ↦ if emission.1 = source then some emission.2 else none

theorem emittedOn_append (source : SourceId) (first last : List (SourceId × Event α)) :
    emittedOn source (first ++ last) = emittedOn source first ++ emittedOn source last :=
  List.filterMap_append

theorem emittedOn_concat (source other : SourceId) (event : Event α)
    (emissions : List (SourceId × Event α)) :
    emittedOn source (emissions ++ [(other, event)]) =
      emittedOn source emissions ++ if other = source then [event] else [] := by
  rw [emittedOn_append]
  by_cases hother : other = source <;> simp [emittedOn, hother]

namespace World

variable {answers : Nat → List α → β} {world : World α β} {j : ViewId} {v : View α β}
  {source : SourceId} {event : Event α}

/-- The inputs of a view that hear an event of a source when these listeners do. -/
def slotsAt (j : ViewId) (source : SourceId) (world : World α β) (tickets : List Nat) : List Nat :=
  tickets.filterMap fun ticket ↦ (world.sourceListener? source ticket).bind (·.slot? j)

theorem mem_slotsAt {tickets : List Nat} {slot : Nat} :
    slot ∈ world.slotsAt j source tickets ↔
      ∃ ticket ∈ tickets, world.sourceListener? source ticket = some (.input j slot) := by
  simp only [slotsAt, List.mem_filterMap, Option.bind_eq_some_iff]
  refine exists_congr fun ticket ↦ and_congr_right fun _ ↦
    ⟨?_, fun h ↦ ⟨_, h, by simp [Listener.slot?]⟩⟩
  rintro ⟨listener, hlistener, hslot⟩
  cases listener with
  | callback key => contradiction
  | input view other =>
    rw [Listener.slot?] at hslot
    split at hslot
    case isTrue hview => rw [hlistener, hview, Option.some.inj hslot]
    case isFalse => contradiction

theorem sourceListener?_congr {world' : World α β} (h : world'.sources = world.sources)
    (ticket : Nat) :
    world'.sourceListener? source ticket = world.sourceListener? source ticket := by
  rw [sourceListener?, h, sourceListener?]

/-- What becomes of a view when listeners of a source hear an event. A composition that begins to
wait is put off. -/
theorem views_foldl_tell (answers : Nat → List α → β) (event : Event α)
    (hview : world.views[j]? = some v) (hidle : v.Idle) (hscheduled : v.scheduled = false)
    (tickets : List Nat)
    (hslots : ∀ k ∈ world.slotsAt j source tickets, k < v.slots.length) :
    let world' := tickets.foldl (tell answers source event) world
    let v' := (world.slotsAt j source tickets).foldl (fun v k ↦ v.takeIn answers k event) v
    world'.views[j]? = some v' ∧ (v'.scheduled → j ∈ world'.deferred) := by
  induction tickets using List.reverseRecOn with
  | nil => exact ⟨hview, fun h ↦ absurd h (by simp [slotsAt, hscheduled])⟩
  | append_singleton tickets ticket ih =>
    have hinputs : world.slotsAt j source (tickets ++ [ticket]) =
        world.slotsAt j source tickets ++ world.slotsAt j source [ticket] :=
      List.filterMap_append
    rw [hinputs] at hslots ⊢
    have hfirst : ∀ k ∈ world.slotsAt j source tickets, k < v.slots.length := fun k hk ↦
      hslots k (List.mem_append_left _ hk)
    obtain ⟨hfound, hwaits⟩ := ih hfirst
    rw [List.foldl_append, List.foldl_append, List.foldl_cons, List.foldl_nil]
    let world₁ := tickets.foldl (tell answers source event) world
    let v₁ := (world.slotsAt j source tickets).foldl (fun v k ↦ v.takeIn answers k event) v
    have hidle₁ : v₁.Idle := (hidle.foldl_takeIn answers event _ hfirst).2.1
    have hsources : world₁.sources = world.sources :=
      foldl_tell_preserves (fun w ↦ w.sources = world.sources)
        (fun _ _ slot h ↦ (sources_takeIn slot event).trans h) tickets rfl
    have hlistener : world₁.sourceListener? source ticket = world.sourceListener? source ticket :=
      sourceListener?_congr hsources ticket
    cases hnext : world.sourceListener? source ticket with
    | none =>
      have hnone : world.slotsAt j source [ticket] = [] := by simp [slotsAt, hnext]
      rw [hnone, List.foldl_nil, tell, hlistener, hnext]
      exact ⟨hfound, hwaits⟩
    | some listener =>
      cases listener with
      | callback key =>
        have hnone : world.slotsAt j source [ticket] = [] := by
          simp [slotsAt, hnext, Listener.slot?]
        rw [hnone, List.foldl_nil, tell, hlistener, hnext]
        exact ⟨hfound, hwaits⟩
      | input i slot =>
        rw [tell, hlistener, hnext]
        by_cases hi : i = j
        · subst hi
          have hone : world.slotsAt i source [ticket] = [slot] := by
            simp [slotsAt, hnext, Listener.slot?]
          rw [hone, List.foldl_cons, List.foldl_nil]
          refine ⟨views_takeIn_self slot event hfound hidle₁.live, fun hs ↦ ?_⟩
          rcases mem_deferred_takeIn slot event hfound hidle₁.live hidle₁.disposed hs with
            hold | hnew
          · exact deferred_takeIn slot event (hwaits hold)
          · exact hnew
        · have hnone : world.slotsAt j source [ticket] = [] := by
            simp [slotsAt, hnext, Listener.slot?, hi]
          rw [hnone, List.foldl_nil]
          refine ⟨(views_takeIn_of_ne slot event hi).trans hfound, fun hs ↦ ?_⟩
          exact deferred_takeIn slot event (hwaits hs)

/-- What becomes of a view when views that were put off compose. -/
theorem views_catchUpAll (answers : Nat → List α → β) (hview : world.views[j]? = some v)
    (hidle : v.Idle) (views : List ViewId) (hwaits : v.scheduled → j ∈ views) :
    ∃ v', (world.catchUpAll answers views).views[j]? = some v' ∧ v.Remains v' ∧ v'.Idle ∧
      v'.slots = v.slots ∧ v'.scheduled = false ∧
      (v.Agreed answers ∨ v.stale ∧ j ∈ views → v'.Agreed answers) := by
  induction views generalizing world v with
  | nil =>
    have hscheduled : v.scheduled = false := Bool.eq_false_iff.mpr fun h ↦ by simpa using hwaits h
    refine ⟨v, hview, .refl v, hidle, rfl, hscheduled, fun h ↦ h.resolve_right ?_⟩
    simp
  | cons i views ih =>
    by_cases hi : i = j
    · subst hi
      let woken : View α β := { v with scheduled := false }
      have hwoken : woken.Idle := ⟨hidle.live, hidle.disposed, hidle.composing⟩
      obtain ⟨hremains, hflushed, hslots⟩ := hwoken.remains_flushed answers
      have hscheduled : (woken.flushed answers).scheduled = false := View.scheduled_flushed woken
      obtain ⟨v', hview', hlater, hidle', hslots', hscheduled', hagreed⟩ :=
        ih (views_catchUp_self hview hidle.live) hflushed (by simp [woken, hscheduled])
      have hfirst : v.Remains (woken.flushed answers) :=
        ⟨hremains.inputs, hremains.composer, hremains.slots⟩
      refine ⟨v', hview', hfirst.trans hlater, hidle', hslots'.trans hslots, hscheduled',
        fun h ↦ ?_⟩
      exact hagreed (.inl (hwoken.agreed_flushed (h.imp id And.left)))
    · have hview₁ : (world.catchUp answers i).views[j]? = some v :=
        (views_catchUp_of_ne hi).trans hview
      have hmem : j ∈ i :: views → j ∈ views := fun h ↦
        (List.mem_cons.mp h).resolve_left (Ne.symm hi)
      obtain ⟨v', hview', hrest⟩ := ih hview₁ hidle fun h ↦ hmem (hwaits h)
      obtain ⟨hremains, hidle', hslots, hscheduled, hagreed⟩ := hrest
      exact ⟨v', hview', hremains, hidle', hslots, hscheduled, fun h ↦
        hagreed (h.imp_right fun ⟨hstale, hj⟩ ↦ ⟨hstale, hmem hj⟩)⟩

/-- Between emissions: the view is idle, and the sources know all of its inputs. -/
structure Connects (j : ViewId) (v : View α β) (world : World α β) : Prop extends v.Idle where
  view : world.views[j]? = some v
  scheduled : v.scheduled = false
  complete : v.inputs.length = v.slots.length
  wired : ∀ source ticket slot, world.sourceListener? source ticket = some (.input j slot) ↔
    v.inputs[slot]? = some (source, ticket)

/-- Assumes: a source shows another event, and nothing else is new. -/
theorem sourceListener?_of_current {world' : World α β}
    (h : world'.sources = world.sources.modify source fun s ↦ { s with current := event })
    (other : SourceId) (ticket : Nat) :
    world'.sourceListener? other ticket = world.sourceListener? other ticket := by
  rw [sourceListener?, h, List.getElem?_modify, sourceListener?]
  cases world.sources[other]? with
  | none => rfl
  | some s => by_cases hsource : source = other <;> simp [hsource]

/-- The inputs of a view that a source feeds are those that hear its events. -/
theorem Connects.mem_slotsAt (h : world.Connects j v) (slot : Nat) :
    slot ∈ world.slotsAt j source (world.sourceTickets source) ↔
      ∃ ticket, v.inputs[slot]? = some (source, ticket) := by
  rw [World.mem_slotsAt]
  constructor
  · rintro ⟨ticket, -, hlistener⟩
    exact ⟨ticket, (h.wired source ticket slot).mp hlistener⟩
  · rintro ⟨ticket, hinput⟩
    have hlistener := (h.wired source ticket slot).mpr hinput
    refine ⟨ticket, ?_, hlistener⟩
    obtain ⟨s, hs, hfound⟩ := Option.bind_eq_some_iff.mp hlistener
    rw [sourceTickets, hs]
    exact Registry.mem_tickets_of_find? hfound

/-- An emission outside ticks: the inputs that the source feeds show the event, and if there are
any, the view shows what its composer makes of its values. -/
theorem Connects.emit (h : world.Connects j v) (answers : Nat → List α → β)
    (hdepth : world.depth = 0) (source : SourceId) (event : Event α) :
    ∃ v', (world.emit answers source event).Connects j v' ∧ v.Remains v' ∧
      (∀ (k : Nat) ticket s, v.inputs[k]? = some (source, ticket) → v'.slots[k]? = some s →
        s.Shows event) ∧
      (∀ k : Nat, (∀ ticket, v.inputs[k]? ≠ some (source, ticket)) →
        v'.slots[k]? = v.slots[k]?) ∧
      ((∃ input ∈ v.inputs, input.1 = source) ∨ v.Agreed answers → v'.Agreed answers) := by
  let tickets := world.sourceTickets source
  let slots := world.slotsAt j source tickets
  have hlisteners : (world.showEvent source event).slotsAt j source tickets = slots :=
    List.filterMap_congr fun ticket _ ↦
      congrArg (Option.bind · _) (sourceListener?_of_current rfl source ticket)
  have hslots : ∀ k ∈ slots, k < v.slots.length := by
    intro k hk
    obtain ⟨ticket, hinput⟩ := (h.mem_slotsAt k).mp hk
    exact h.complete ▸ (List.getElem?_eq_some_iff.mp hinput).1
  -- the inputs hear the event inside the tick
  have hshown : (world.showEvent source event).views[j]? = some v := h.view
  obtain ⟨hheard, hwaits⟩ := views_foldl_tell answers event hshown h.toIdle h.scheduled tickets
    (hlisteners ▸ hslots)
  rw [hlisteners] at hheard hwaits
  obtain ⟨hremains, hidle, hshows, hkept, hagreed⟩ :=
    h.toIdle.foldl_takeIn answers event slots hslots
  -- and when it ends, the view composes if it was put off
  let ended := (world.deliver answers source event).closeTick
  have hended : ended = ((world.deliver answers source event).deferred,
      { world.deliver answers source event with depth := 0, deferred := [] }) :=
    closeTick_deliver hdepth
  have hput : (slots.foldl (fun v k ↦ v.takeIn answers k event) v).scheduled → j ∈ ended.1 :=
    hended ▸ hwaits
  have hclosed : ended.2.views[j]? = some (slots.foldl (fun v k ↦ v.takeIn answers k event) v) := by
    rw [hended]
    exact hheard
  obtain ⟨v', hview', hlater, hidle', hsame, hscheduled, hcaughtUp⟩ :=
    views_catchUpAll answers hclosed hidle ended.1 hput
  have hall := hremains.trans hlater
  refine ⟨v', ⟨hidle', hview', hscheduled, ?_, fun other ticket slot ↦ ?_⟩, hall, ?_, ?_, ?_⟩
  · rw [hall.inputs, hall.slots, h.complete]
  · rw [sourceListener?_of_current (sources_emit source event world), hall.inputs]
    exact h.wired other ticket slot
  · intro k ticket s hinput hs
    exact hshows k ((h.mem_slotsAt k).mpr ⟨ticket, hinput⟩) s (hsame ▸ hs)
  · intro k hother
    rw [hsame]
    exact hkept k fun hk ↦ ((h.mem_slotsAt k).mp hk).elim hother
  · intro hfed
    by_cases hnone : slots = []
    · refine hcaughtUp (.inl ?_)
      simp only [hnone, List.foldl_nil]
      refine hfed.resolve_left ?_
      rintro ⟨⟨other, ticket⟩, hinput, rfl⟩
      obtain ⟨k, hk⟩ := List.mem_iff_getElem?.mp hinput
      have hslot : k ∈ slots := (h.mem_slotsAt k).mpr ⟨ticket, hk⟩
      rw [hnone] at hslot
      contradiction
    · exact hcaughtUp ((hagreed hnone).imp_right fun ⟨hstale, hs⟩ ↦ ⟨hstale, hput hs⟩)

/-! ### What emissions make of one view -/

/-- After emissions outside ticks, every input shows the last event that its source emitted. If
there are any for the view, it shows what its composer makes of its values. -/
theorem Connects.emitAll (h : world.Connects j v) (answers : Nat → List α → β)
    (hdepth : world.depth = 0) (emissions : List (SourceId × Event α)) :
    ∃ v', (world.emitAll answers emissions).Connects j v' ∧ v.Remains v' ∧
      (world.emitAll answers emissions).depth = 0 ∧
      (∀ (k : Nat) input s last, v.inputs[k]? = some input → v'.slots[k]? = some s →
        (emittedOn input.1 emissions).getLast? = some last → s.Shows last) ∧
      ((∃ input ∈ v.inputs, emittedOn input.1 emissions ≠ []) ∨ v.Agreed answers →
        v'.Agreed answers) := by
  induction emissions using List.reverseRecOn with
  | nil => exact ⟨v, h, .refl v, hdepth, by simp [emittedOn], by simp [emittedOn]⟩
  | append_singleton emissions emission ih =>
    obtain ⟨source, event⟩ := emission
    obtain ⟨v₁, h₁, hremains, hdepth₁, hshows, hagreed⟩ := ih
    obtain ⟨v', h', hlast, hheard, hkept, hlater⟩ :=
      h₁.emit answers hdepth₁ source event
    rw [emitAll_append]
    refine ⟨v', h', hremains.trans hlast, (depth_emit hdepth₁).1, ?_, fun hfed ↦ hlater ?_⟩
    · intro k input s last hinput hs hemitted
      have hinput₁ : v₁.inputs[k]? = some input := by rw [hremains.inputs, hinput]
      rw [emittedOn_concat] at hemitted
      by_cases hsource : source = input.1
      · rw [if_pos hsource, List.getLast?_concat] at hemitted
        rw [← Option.some.inj hemitted]
        refine hheard k input.2 s ?_ hs
        rw [hinput₁, hsource]
      · rw [if_neg hsource, List.append_nil] at hemitted
        rw [hkept k fun ticket heq ↦ ?_] at hs
        · exact hshows k input s last hinput hs hemitted
        · rw [hinput₁] at heq
          exact hsource (congrArg Prod.fst (Option.some.inj heq)).symm
    · by_cases hsource : ∃ input ∈ v₁.inputs, input.1 = source
      · exact .inl hsource
      · refine .inr (hagreed (hfed.imp_left ?_))
        rintro ⟨input, hinput, hemitted⟩
        refine ⟨input, hinput, ?_⟩
        rwa [emittedOn_concat, if_neg, List.append_nil] at hemitted
        rintro rfl
        exact hsource ⟨input, hremains.inputs ▸ hinput, rfl⟩

/-- If every source that feeds a view emitted a value last, the view shows what its composer makes
of these values, in whatever order they came. Assumes: emissions outside ticks, and a view that has
inputs or agreed with its values before. -/
theorem Connects.ready_emitAll (h : world.Connects j v) (hdepth : world.depth = 0)
    {emissions : List (SourceId × Event α)} {values : List α}
    (hvalues : List.Forall₂ (fun input value ↦
      (emittedOn input.1 emissions).getLast? = some (.loaded value)) v.inputs values)
    (hagreed : v.inputs = [] → v.Agreed answers) :
    ∃ v', (world.emitAll answers emissions).views[j]? = some v' ∧ v.Remains v' ∧
      v'.status = .ready (v.composer.apply answers values) := by
  obtain ⟨v', h', hremains, -, hshows, hagreed'⟩ := h.emitAll answers hdepth emissions
  have hlength : v.inputs.length = values.length := hvalues.length_eq
  have hslots : v'.slots = values.map fun value ↦ { status := .loaded, cached := some value } := by
    have hcount : v'.slots.length = values.length := by
      rw [← h'.complete, hremains.inputs, hlength]
    refine List.ext_getElem (by rw [hcount, List.length_map]) fun k hk _ ↦ ?_
    have hbound : k < v.inputs.length := hlength ▸ hcount ▸ hk
    have hlast := hvalues.get hbound (hcount ▸ hk)
    rw [List.getElem_map]
    exact hshows k _ _ _ (List.getElem?_eq_getElem hbound) (List.getElem?_eq_getElem hk) hlast
  obtain ⟨hloaded, hcached⟩ := View.allLoaded_and_cachedValues?_of_slots hslots
  have hstatus : v'.Agreed answers := by
    refine hagreed' ?_
    cases hinputs : v.inputs with
    | nil => exact .inr (hagreed hinputs)
    | cons input inputs =>
      rw [hinputs] at hvalues
      obtain ⟨value, rest, hfirst, -, -⟩ := List.forall₂_cons_left_iff.mp hvalues
      refine .inl ⟨input, List.mem_cons_self, fun hnone ↦ ?_⟩
      rw [hnone] at hfirst
      contradiction
  refine ⟨v', h'.view, hremains, ?_⟩
  rw [← hremains.composer]
  exact hstatus hloaded values hcached

end World

end LiveRecord.Flow
