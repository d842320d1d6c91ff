import Mathlib.Data.List.Induction
import Mathlib.Logic.Function.Iterate
import LiveRecord.Proofs.Flow.Ownership
import LiveRecord.Proofs.Flow.Recording
import LiveRecord.Proofs.Flow.Tickets
import LiveRecord.Proofs.Flow.Wiring

/-!
# What a view shows while callbacks only record

The reference keeps the current event of every source and a list of outputs, and knows nothing of
slots, flags, queues or deferred compositions. Inputs that hear failures output them at once; the
end of an outermost tick outputs one value if every input is loaded and there is news
(`Reference.act`). A view and a listener that registers right after it was built agree with the
reference whatever is emitted and however ticks are opened and closed
(`Machine.performs_reference`).
-/

set_option autoImplicit false

namespace LiveRecord.Flow

variable {α β : Type}

/-- What is done to sources and ticks between two looks at a view. -/
inductive Act (α : Type)
  | emit (source : SourceId) (event : Event α)
  | enterTick
  | leaveTick

def Act.request : Act α → Request α β
  | emit source event => .emit source event
  | enterTick => .enterTick
  | leaveTick => .leaveTick

/-- The status to which an emission of a view leads. -/
def ViewEvent.status : ViewEvent β → ViewStatus β
  | ready value => .ready value
  | failed error => .failed error

def ViewEvent.isReady : ViewEvent β → Bool
  | ready _ => true
  | failed _ => false

/-- What there is to know of a combined view. -/
structure Reference (α β : Type) where
  /-- The current event of every source. -/
  events : List (Event α)
  /-- The number of open ticks. -/
  depth : Nat
  /-- An input has heard a loaded event since the last value, or there was no value yet. -/
  news : Bool := true
  outputs : List (ViewEvent β) := []

namespace Reference

def current (r : Reference α β) (source : SourceId) : Event α := r.events[source]?.getD .pending

/-- The current values of the inputs, if all are loaded. -/
def values? (inputs : List SourceId) (r : Reference α β) : Option (List α) :=
  (inputs.map r.current).mapM (·.value?)

/-- An input hears an event of its source. -/
def hear (event : Event α) (r : Reference α β) : Reference α β :=
  match event with
  | .pending => r
  | .loaded _ => { r with news := true }
  | .failed error => { r with outputs := r.outputs ++ [.failed error] }

/-- The outermost tick ends. -/
def endTick (inputs : List SourceId) (compose : List α → β) (r : Reference α β) :
    Reference α β :=
  match r.news, r.values? inputs with
  | true, some values =>
    { r with news := false, outputs := r.outputs ++ [.ready (compose values)] }
  | _, _ => r

/-- A source accepts an event, which every input that it feeds hears. -/
def publish (inputs : List SourceId) (source : SourceId) (event : Event α) (r : Reference α β) :
    Reference α β :=
  (hear event)^[inputs.count source] { r with events := r.events.set source event }

/-- An event is emitted. A source that has loaded does not become pending again, and outside ticks
the emission is a tick of its own. -/
def emit (inputs : List SourceId) (compose : List α → β) (source : SourceId) (event : Event α)
    (r : Reference α β) : Reference α β :=
  match r.events[source]? with
  | none => r
  | some current =>
    match event, current with
    | .pending, .loaded _ => r
    | _, _ =>
      let r := r.publish inputs source event
      if r.depth = 0 then r.endTick inputs compose else r

def leaveTick (inputs : List SourceId) (compose : List α → β) (r : Reference α β) :
    Reference α β :=
  match r.depth with
  | 0 => r
  | 1 => { r with depth := 0 }.endTick inputs compose
  | depth + 2 => { r with depth := depth + 1 }

def act (inputs : List SourceId) (compose : List α → β) (act : Act α) (r : Reference α β) :
    Reference α β :=
  match act with
  | .emit source event => r.emit inputs compose source event
  | .enterTick => { r with depth := r.depth + 1 }
  | .leaveTick => r.leaveTick inputs compose

/-- A view is built while sources have these events and this number of ticks is open. Its inputs hear
the current events of their sources, and outside ticks the build is a tick of its own. -/
def build (inputs : List SourceId) (compose : List α → β) (events : List (Event α)) (depth : Nat) :
    Reference α β :=
  let start : Reference α β := { events, depth }
  let r := (inputs.map start.current).foldl (fun r event ↦ r.hear event) start
  if depth = 0 then r.endTick inputs compose else r

/-- The status of the view: the last output, if there is one. -/
def status (r : Reference α β) : ViewStatus β := (r.outputs.getLast?.map (·.status)).getD .pending

/-- The number of values that the view has composed. -/
def emissions (r : Reference α β) : Nat := r.outputs.countP (·.isReady)

/-- What a listener hears that registers at the first point in time: the last output, if there is
one, and then all outputs since. -/
def heardSince (first r : Reference α β) : List (ViewEvent β) :=
  first.outputs.getLast?.toList ++ r.outputs.drop first.outputs.length

variable {r : Reference α β}

theorem events_hear (event : Event α) (r : Reference α β) : (r.hear event).events = r.events := by
  cases event <;> rfl

theorem depth_hear (event : Event α) (r : Reference α β) : (r.hear event).depth = r.depth := by
  cases event <;> rfl

theorem events_endTick (inputs : List SourceId) (compose : List α → β) (r : Reference α β) :
    (r.endTick inputs compose).events = r.events := by
  unfold endTick
  split <;> rfl

theorem depth_endTick (inputs : List SourceId) (compose : List α → β) (r : Reference α β) :
    (r.endTick inputs compose).depth = r.depth := by
  unfold endTick
  split <;> rfl

theorem events_publish (inputs : List SourceId) (source : SourceId) (event : Event α)
    (r : Reference α β) : (r.publish inputs source event).events = r.events.set source event := by
  unfold publish
  generalize inputs.count source = count
  induction count with
  | zero => rfl
  | succ count ih => rw [Function.iterate_succ_apply', events_hear, ih]

theorem depth_publish (inputs : List SourceId) (source : SourceId) (event : Event α)
    (r : Reference α β) : (r.publish inputs source event).depth = r.depth := by
  unfold publish
  generalize inputs.count source = count
  induction count with
  | zero => rfl
  | succ count ih => rw [Function.iterate_succ_apply', depth_hear, ih]

theorem depth_build (inputs : List SourceId) (compose : List α → β) (events : List (Event α))
    (depth : Nat) : (build inputs compose events depth).depth = depth := by
  have hheard : ∀ (heard : List (Event α)) (r : Reference α β),
      (heard.foldl (fun r event ↦ r.hear event) r).depth = r.depth := by
    intro heard
    induction heard with
    | nil => exact fun r ↦ rfl
    | cons event heard ih => exact fun r ↦ (ih _).trans (depth_hear event r)
  unfold build
  dsimp only
  split
  · rw [depth_endTick, hheard]
  · rw [hheard]

/-- A tick that ends twice outputs once. -/
theorem endTick_endTick (inputs : List SourceId) (compose : List α → β) (r : Reference α β) :
    (r.endTick inputs compose).endTick inputs compose = r.endTick inputs compose := by
  cases hnews : r.news with
  | false => simp only [endTick, hnews]
  | true =>
    cases hvalues : r.values? inputs with
    | none => simp only [endTick, hnews, hvalues]
    | some values => simp only [endTick, hnews, hvalues]

/-- When a tick has ended, no value is due. -/
theorem not_due_endTick (inputs : List SourceId) (compose : List α → β) (r : Reference α β) :
    ((r.endTick inputs compose).news && (r.values? inputs).isSome) = false := by
  cases hnews : r.news with
  | false => simp only [endTick, hnews, Bool.false_and]
  | true =>
    cases hvalues : r.values? inputs with
    | none => rw [Option.isSome_none, Bool.and_false]
    | some values => simp only [endTick, hnews, hvalues, Bool.false_and]

theorem status_concat (event : ViewEvent β) (r : Reference α β) :
    { r with outputs := r.outputs ++ [event] }.status = event.status := by
  simp [status]

theorem emissions_concat (event : ViewEvent β) (r : Reference α β) :
    { r with outputs := r.outputs ++ [event] }.emissions = r.emissions + event.isReady.toNat := by
  cases event <;> simp [emissions, ViewEvent.isReady]

/-- What the inputs of a view show when these sources are connected. -/
def shown (connected : List SourceId) (r : Reference α β) (slot : Nat) : Event α :=
  (connected[slot]?.map r.current).getD .pending

theorem shown_congr {r' : Reference α β} (h : r'.events = r.events) (connected : List SourceId) :
    r'.shown connected = r.shown connected := by
  have hcurrent : r'.current = r.current := by
    funext source
    rw [current, current, h]
  funext slot
  rw [shown, shown, hcurrent]

theorem current_hear (event : Event α) (r : Reference α β) : (r.hear event).current = r.current := by
  funext source
  rw [current, current, events_hear]

/-- One more source is connected. -/
theorem shown_concat (connected : List SourceId) (source : SourceId) (r : Reference α β) :
    r.shown (connected ++ [source]) =
      Function.update (r.shown connected) connected.length (r.current source) := by
  funext slot
  by_cases hslot : slot = connected.length
  · rw [hslot, Function.update_self, shown, List.getElem?_concat_length]
    rfl
  · rw [Function.update_of_ne hslot, shown, shown]
    by_cases hold : slot < connected.length
    · rw [List.getElem?_append_left hold]
    · rw [List.getElem?_eq_none (by simp; omega), List.getElem?_eq_none (by omega)]

theorem map_shown (inputs : List SourceId) (r : Reference α β) :
    (List.range inputs.length).map (r.shown inputs) = inputs.map r.current := by
  refine List.ext_getElem (by simp) fun k hk hk' ↦ ?_
  have hinput : k < inputs.length := by simpa using hk
  simp [shown, hinput]

end Reference

theorem Event.mapM_value?_eq_some_iff {events : List (Event α)} {values : List α} :
    events.mapM (·.value?) = some values ↔ events = values.map .loaded := by
  rw [mapM_eq_some_iff]
  induction events generalizing values with
  | nil => cases values <;> simp
  | cons event events ih =>
    cases values with
    | nil => simp
    | cons value values =>
      rw [List.map_cons, List.map_cons, List.map_cons, List.cons.injEq, List.cons.injEq, ih]
      cases event <;> simp [Event.value?]

/-! ### A view agrees with the reference -/

/-- The view and what is fixed about it. -/
structure Watch (α β : Type) where
  view : ViewId
  composer : Composer α β
  inputs : List SourceId
  listeners : Registry Nat := {}
  /-- The first composition has been requested. Until then the view is being built. -/
  requested : Bool := false

/-- A view whose inputs show these events is at the point of the reference. -/
structure View.Reflects (watch : Watch α β) (shown : Nat → Event α) (r : Reference α β)
    (v : View α β) : Prop where
  composer : v.composer = watch.composer
  listeners : v.listeners = watch.listeners
  length : v.slots.length = watch.inputs.length
  slots : ∀ (k : Nat) (s : Slot α), v.slots[k]? = some s → s.Shows (shown k)
  live : v.live
  disposed : v.disposed = false
  composing : v.composing = false
  lent : v.lent = false
  failures : v.failures = []
  news : v.stale = r.news
  status : v.status = r.status
  emissions : v.emissions = r.emissions

namespace View.Reflects

variable {answers : Nat → List α → β} {watch : Watch α β} {shown : Nat → Event α}
  {r : Reference α β} {v : View α β} {slot : Nat}

/-- The view keeps the values that its inputs show. -/
theorem values (h : v.Reflects watch shown r) :
    (if v.allLoaded then v.cachedValues? else none) =
      ((List.range watch.inputs.length).map shown).mapM (·.value?) := by
  ext values
  rw [Event.mapM_value?_eq_some_iff, ← h.length]
  constructor
  · intro hkept
    by_cases hall : v.allLoaded
    · rw [if_pos hall] at hkept
      obtain ⟨other, hcached, hloaded⟩ := View.exists_values_of_shows h.slots hall
      rw [hloaded, Option.some.inj (hcached.symm.trans hkept)]
    · rw [if_neg hall] at hkept
      contradiction
  · intro hloaded
    obtain ⟨hall, hcached⟩ :=
      View.allLoaded_and_cachedValues?_of_slots (View.slots_of_shows h.slots hloaded)
    rw [if_pos hall, hcached]

theorem allLoaded (h : v.Reflects watch shown r) :
    v.allLoaded = (((List.range watch.inputs.length).map shown).mapM Event.value?).isSome := by
  rw [Bool.eq_iff_iff, Option.isSome_iff_exists]
  constructor
  · intro hall
    obtain ⟨values, -, hloaded⟩ := View.exists_values_of_shows h.slots hall
    rw [h.length] at hloaded
    exact ⟨values, Event.mapM_value?_eq_some_iff.mpr hloaded⟩
  · rintro ⟨values, hvalues⟩
    rw [Event.mapM_value?_eq_some_iff, ← h.length] at hvalues
    exact (View.allLoaded_and_cachedValues?_of_slots (View.slots_of_shows h.slots hvalues)).1

theorem isDue (h : v.Reflects watch shown r) :
    v.isDue =
      (r.news && (((List.range watch.inputs.length).map shown).mapM Event.value?).isSome) := by
  rw [View.isDue, h.news, h.allLoaded]

theorem dueValue? (h : v.Reflects watch shown r) :
    v.dueValue? answers = if r.news then
      (((List.range watch.inputs.length).map shown).mapM Event.value?).map
        (watch.composer.apply answers) else none := by
  rw [← h.values, ← h.news, View.dueValue?, View.isDue, h.composer]
  cases v.stale <;> cases v.allLoaded <;> rfl

/-- An input hears an event inside a tick. -/
theorem takeIn (h : v.Reflects watch shown r) (hslot : slot < watch.inputs.length)
    (event : Event α) :
    (v.takeIn answers slot event).Reflects watch (Function.update shown slot event)
      (r.hear event) ∧ (r.hear event).outputs = r.outputs ++ v.takeInTold answers slot event := by
  have hslots : ∀ (k : Nat) (s : Slot α), (v.slots.modify slot (·.hear event))[k]? = some s →
      s.Shows (Function.update shown slot event k) := by
    intro k s hs
    rw [List.getElem?_modify] at hs
    obtain ⟨s, hold, rfl⟩ := Option.map_eq_some_iff.mp hs
    by_cases hk : slot = k
    · subst hk
      rw [if_pos rfl, Function.update_self]
      exact Slot.shows_hear event s
    · rw [if_neg hk, Function.update_of_ne (Ne.symm hk)]
      exact h.slots k s hold
  cases event with
  | pending =>
    obtain ⟨htakeIn, htold⟩ := View.takeIn_pending answers slot h.disposed
    rw [htakeIn, htold, View.absorb_pending h.disposed, List.append_nil]
    exact ⟨{ h with length := by rw [List.length_modify, h.length], slots := hslots }, rfl⟩
  | loaded value =>
    obtain ⟨htakeIn, htold⟩ := View.takeIn_loaded answers slot value h.disposed
    rw [htakeIn, htold, View.absorb_loaded value h.disposed, List.append_nil]
    exact ⟨{ h with length := by rw [List.length_modify, h.length], slots := hslots, news := rfl },
      rfl⟩
  | failed error =>
    obtain ⟨htakeIn, htold⟩ := View.takeIn_failed answers slot error h.disposed
    let heard : View α β := { v with
      slots := v.slots.modify slot (·.hear (.failed error))
      status := .failed error
      dirty := false
      failures := [] }
    have hloaded : heard.allLoaded = false := by
      refine View.all_modify_hear ?_ rfl
      rw [h.length]
      exact hslot
    have hvalue : heard.dueValue? answers = none := by
      rw [View.dueValue?, View.isDue, hloaded, Bool.and_false]
      rfl
    have hflushed : (v.absorb slot (.failed error)).flushed answers = heard := by
      rw [View.absorb_failed error h.disposed, View.flushed, if_neg (by simp [h.composing]),
        if_neg (by simp [h.disposed])]
      show heard.composed answers = heard
      have hidle : { heard with stale := heard.stale && !heard.allLoaded, composing := false } =
          heard := by
        have hcomposing : heard.composing = false := h.composing
        rw [hloaded, Bool.not_false, Bool.and_true, ← hcomposing]
      rw [View.composed, hvalue]
      exact hidle
    have hflushTold : (v.absorb slot (.failed error)).flushTold answers = [.failed error] := by
      have hdue : (v.absorb slot (.failed error)).dueValue? answers = none := by
        rw [View.absorb_failed error h.disposed]
        exact hvalue
      rw [View.flushTold, hdue, View.absorb_failed error h.disposed]
      simp [h.composing, h.disposed, h.failures]
    rw [htakeIn, htold, hflushed, hflushTold]
    refine ⟨{ h with
      length := ?_
      slots := hslots
      failures := rfl
      status := ?_
      emissions := ?_ }, rfl⟩
    · rw [List.length_modify, h.length]
    · exact (Reference.status_concat (.failed error) r).symm
    · rw [h.emissions]
      exact (Reference.emissions_concat (.failed error) r).symm

/-- A tick that ends outputs nothing while no value is due. -/
theorem endTick_of_not_due (h : v.Reflects watch (r.shown watch.inputs) r)
    (hdue : v.isDue = false) (compose : List α → β) : r.endTick watch.inputs compose = r := by
  have hvalues := h.values
  rw [Reference.map_shown] at hvalues
  rw [View.isDue, h.news] at hdue
  cases hnews : r.news with
  | false => simp only [Reference.endTick, hnews]
  | true =>
    rw [hnews, Bool.true_and] at hdue
    rw [hdue, if_neg (by simp)] at hvalues
    simp only [Reference.endTick, hnews, Reference.values?, ← hvalues]

/-- A view that was put off composes at the end of a tick. -/
theorem flushed (h : v.Reflects watch (r.shown watch.inputs) r) :
    let r' := r.endTick watch.inputs (watch.composer.apply answers)
    ({ v with scheduled := false }.flushed answers).Reflects watch (r.shown watch.inputs) r' ∧
      r'.outputs = r.outputs ++ { v with scheduled := false }.flushTold answers := by
  intro r'
  let idle : View α β := { v with scheduled := false, dirty := false, failures := [] }
  have hflushed : { v with scheduled := false }.flushed answers = idle.composed answers := by
    rw [View.flushed, if_neg (by simp [h.composing]), if_neg (by simp [h.disposed])]
  have hflushTold : { v with scheduled := false }.flushTold answers =
      (idle.dueValue? answers).toList.map .ready := by
    simp only [View.flushTold, h.composing, h.disposed, h.failures]
    rfl
  have hvalue : idle.dueValue? answers = if r.news then
      (r.values? watch.inputs).map (watch.composer.apply answers) else none := by
    rw [Reference.values?, ← Reference.map_shown]
    exact h.dueValue?
  have hstale : (idle.stale && !idle.allLoaded) =
      (r.news && (r.values? watch.inputs).isNone) := by
    rw [Reference.values?, ← Reference.map_shown, ← h.news, ← Option.not_isSome, ← h.allLoaded]
    rfl
  rw [hflushed, hflushTold]
  by_cases hdue : ∃ values, r.news = true ∧ r.values? watch.inputs = some values
  · obtain ⟨values, hnews, hvalues⟩ := hdue
    let result := watch.composer.apply answers values
    rw [hnews, if_pos rfl, hvalues, Option.map_some] at hvalue
    rw [hnews, hvalues, Option.isNone_some, Bool.and_false] at hstale
    have houtput : r' = { r with news := false, outputs := r.outputs ++ [.ready result] } := by
      simp only [r', Reference.endTick, hnews, hvalues, result]
    have hcomposed : idle.composed answers =
        { idle with stale := false, composing := false }.becomeReady result := by
      rw [View.composed, hvalue, hstale]
    rw [hcomposed, hvalue, houtput]
    refine ⟨{ h with
      composing := rfl
      failures := rfl
      news := rfl
      status := ?_
      emissions := ?_ }, rfl⟩
    · exact (Reference.status_concat (.ready result) _).symm
    · have hcount := Reference.emissions_concat (.ready result) { r with news := false }
      exact (congrArg (· + 1) h.emissions).trans hcount.symm
  · have hnone : idle.dueValue? answers = none ∧ r' = r ∧
        (r.news && (r.values? watch.inputs).isNone) = r.news := by
      rw [hvalue]
      cases hnews : r.news with
      | false => exact ⟨rfl, by simp only [r', Reference.endTick, hnews], rfl⟩
      | true =>
        cases hvalues : r.values? watch.inputs with
        | none => exact ⟨rfl, by simp only [r', Reference.endTick, hnews, hvalues], rfl⟩
        | some values => exact absurd ⟨values, hnews, hvalues⟩ hdue
    obtain ⟨hidle, hsame, hkept⟩ := hnone
    have hcomposed : idle.composed answers =
        { idle with stale := r.news, composing := false } := by
      rw [View.composed, hidle, hstale, hkept]
    rw [hcomposed, hidle, hsame]
    refine ⟨{ h with
      composing := rfl
      failures := rfl
      news := rfl }, ?_⟩
    exact (List.append_nil r.outputs).symm

/-- Assumes: an input that does not show a loaded event. -/
theorem not_isDue (h : v.Reflects watch shown r) (hslot : slot < watch.inputs.length)
    (hevent : (shown slot).isLoaded = false) : v.isDue = false := by
  have hall : v.allLoaded = false := by
    rw [h.allLoaded, Option.isSome_eq_false_iff, Option.isNone_iff_eq_none]
    by_contra hsome
    obtain ⟨values, hvalues⟩ := Option.ne_none_iff_exists'.mp hsome
    rw [Event.mapM_value?_eq_some_iff] at hvalues
    have hget := congrArg (·[slot]?) hvalues
    rw [List.getElem?_map, List.getElem?_map, List.getElem?_range hslot] at hget
    obtain ⟨value, -, hvalue⟩ := Option.map_eq_some_iff.mp hget.symm
    rw [← hvalue] at hevent
    contradiction
  rw [View.isDue, hall, Bool.and_false]

/-- Once an input has heard an event inside a tick, a value that is due waits. -/
theorem scheduled_takeIn (h : v.Reflects watch shown r) (hslot : slot < watch.inputs.length)
    (event : Event α) (hdue : (v.takeIn answers slot event).isDue) :
    (v.takeIn answers slot event).scheduled := by
  cases hevent : event.isLoaded with
  | true =>
    obtain ⟨value, rfl⟩ : ∃ value, event = .loaded value := by
      cases event with
      | loaded value => exact ⟨value, rfl⟩
      | _ => contradiction
    rw [(View.takeIn_loaded answers slot value h.disposed).1]
  | false =>
    have hheard := (h.takeIn hslot event : (v.takeIn answers slot event).Reflects watch _ _ ∧ _).1
    rw [hheard.not_isDue hslot (by rw [Function.update_self, hevent])] at hdue
    contradiction

end View.Reflects

/-! ### The world agrees with the reference -/

/-- The input of the view that the listener is, if it is one. -/
def Listener.slot? (view : ViewId) : Listener → Option Nat
  | callback _ => none
  | input other slot => if other = view then some slot else none

/-- The inputs that a source feeds. -/
def fed (source : SourceId) (connected : List SourceId) : List Nat :=
  connected.zipIdx.filterMap fun input ↦ if input.1 = source then some input.2 else none

theorem fed_concat (source other : SourceId) (connected : List SourceId) :
    fed source (connected ++ [other]) =
      fed source connected ++ if other = source then [connected.length] else [] := by
  simp only [fed, List.zipIdx_append, List.filterMap_append]
  by_cases hother : other = source <;> simp [hother]

theorem mem_fed {source : SourceId} {connected : List SourceId} {slot : Nat} :
    slot ∈ fed source connected ↔ connected[slot]? = some source := by
  rw [fed, List.mem_filterMap]
  constructor
  · rintro ⟨⟨other, k⟩, hinput, hslot⟩
    rw [List.mem_zipIdx_iff_getElem?] at hinput
    by_cases hother : other = source
    · rw [if_pos hother] at hslot
      rw [← Option.some.inj hslot, ← hother]
      exact hinput
    · rw [if_neg hother] at hslot
      contradiction
  · intro hslot
    exact ⟨(source, slot), List.mem_zipIdx_iff_getElem?.mpr hslot, if_pos rfl⟩

theorem length_fed (source : SourceId) (connected : List SourceId) :
    (fed source connected).length = connected.count source := by
  induction connected using List.reverseRecOn with
  | nil => rfl
  | append_singleton connected other ih =>
    rw [fed_concat, List.length_append, ih, List.count_append]
    by_cases hother : other = source <;> simp [hother]

/-- The world agrees with the reference on the view: its inputs show these events, these sources are
connected, and a value that is due waits. -/
structure World.Follows (watch : Watch α β) (connected : List SourceId) (shown : Nat → Event α)
    (stack : List (Frame α β)) (waiting : List ViewId) (r : Reference α β)
    (world : World α β) : Prop where
  view : ∃ v, world.views[watch.view]? = some v ∧ v.Reflects watch shown r ∧
    (watch.requested → v.isDue → v.scheduled) ∧ (v.scheduled → watch.view ∈ waiting)
  events : world.sources.map (·.current) = r.events
  slots : ∀ (source : SourceId) (s : Source α), world.sources[source]? = some s →
    s.listeners.entries.filterMap (·.2.slot? watch.view) = fed source connected
  ordered : world.Ordered
  calm : world.Calm stack

namespace World.Follows

variable {answers : Nat → List α → β} {watch : Watch α β} {connected : List SourceId}
  {shown : Nat → Event α} {stack : List (Frame α β)} {waiting : List ViewId}
  {r : Reference α β} {world : World α β} {j : ViewId} {slot : Nat}

theorem push (h : world.Follows watch connected shown stack waiting r) (frame : Frame α β) :
    world.Follows watch connected shown (frame :: stack) waiting r :=
  { h with calm := h.calm.push frame }

/-- Opening and closing ticks changes nothing of what the view shows. -/
theorem atDepth (h : world.Follows watch connected shown stack waiting r) (depth : Nat) :
    world.Follows watch connected shown stack waiting { r with depth } where
  view := by
    obtain ⟨v, hview, hreflects, hwaits⟩ := h.view
    exact ⟨v, hview, { hreflects with }, hwaits⟩
  events := h.events
  slots := h.slots
  ordered := h.ordered
  calm := h.calm

/-- Assumes: the frame on top holds no view. -/
theorem pop {frame : Frame α β}
    (h : world.Follows watch connected shown (frame :: stack) waiting r)
    (hholds : ∀ j, frame.holds j = false) : world.Follows watch connected shown stack waiting r :=
  { h with calm := h.calm.pop hholds }

/-- A source publishes an event, before any input has heard it. -/
theorem publish (h : world.Follows watch connected shown stack waiting r) (source : SourceId)
    (event : Event α) :
    (world.openTick.modifySource source fun s ↦ { s with current := event }).Follows watch connected
      shown stack waiting { r with events := r.events.set source event } where
  view := by
    obtain ⟨v, hview, hreflects, hwaits⟩ := h.view
    exact ⟨v, hview, { hreflects with }, hwaits⟩
  events := by
    rw [← h.events]
    refine List.ext_getElem? fun k ↦ ?_
    simp only [modifySource, openTick, List.getElem?_map, List.getElem?_modify, List.getElem?_set,
      List.length_map]
    by_cases hk : source = k
    · subst hk
      by_cases hbound : source < world.sources.length
      · simp [hbound]
      · simp [hbound]
    · simp [hk]
  slots other s hsource := by
    simp only [modifySource, openTick, List.getElem?_modify] at hsource
    obtain ⟨s, hs, rfl⟩ := Option.map_eq_some_iff.mp hsource
    split <;> exact h.slots other s hs
  ordered other s hsource := by
    simp only [modifySource, openTick, List.getElem?_modify] at hsource
    obtain ⟨s, hs, rfl⟩ := Option.map_eq_some_iff.mp hsource
    split <;> exact h.ordered other s hs
  calm := h.calm

/-- An input of another view hears an event inside a tick. -/
theorem takeIn_of_ne (h : world.Follows watch connected shown stack world.deferred r)
    (slot : Nat) (event : Event α) (hne : j ≠ watch.view) :
    (world.takeIn answers j slot event).Follows watch connected shown stack
      (world.takeIn answers j slot event).deferred r where
  view := by
    obtain ⟨v, hview, hreflects, hdue, hwaits⟩ := h.view
    refine ⟨v, ?_, hreflects, hdue, fun hscheduled ↦ ?_⟩
    · rw [views_takeIn_of_ne slot event hne, hview]
    · exact deferred_takeIn slot event (hwaits hscheduled)
  events := by rw [sources_takeIn, h.events]
  slots source s hsource := by
    rw [sources_takeIn] at hsource
    exact h.slots source s hsource
  ordered source s hsource := by
    rw [sources_takeIn] at hsource
    exact h.ordered source s hsource
  calm := h.calm.takeIn slot event

/-- An input of the view hears an event inside a tick. -/
theorem takeIn_self (h : world.Follows watch connected shown stack world.deferred r)
    (event : Event α) (hslot : slot < watch.inputs.length) :
    (world.takeIn answers watch.view slot event).Follows watch connected
      (Function.update shown slot event) stack
      (world.takeIn answers watch.view slot event).deferred (r.hear event) where
  view := by
    obtain ⟨v, hview, hreflects, hdue, hwaits⟩ := h.view
    refine ⟨v.takeIn answers slot event, ?_, (hreflects.takeIn hslot event).1,
      fun _ ↦ hreflects.scheduled_takeIn hslot event, fun hscheduled ↦ ?_⟩
    · rw [views_takeIn_self slot event hview hreflects.live]
    · rcases mem_deferred_takeIn slot event hview hreflects.live hreflects.disposed hscheduled with
        hold | hnew
      · exact deferred_takeIn slot event (hwaits hold)
      · exact hnew
  events := by rw [sources_takeIn, h.events, Reference.events_hear]
  slots source s hsource := by
    rw [sources_takeIn] at hsource
    exact h.slots source s hsource
  ordered source s hsource := by
    rw [sources_takeIn] at hsource
    exact h.ordered source s hsource
  calm := h.calm.takeIn slot event

/-- Another view that was put off composes. -/
theorem catchUp_of_ne (h : world.Follows watch connected shown stack (j :: waiting) r)
    (hne : j ≠ watch.view) :
    (world.catchUp answers j).Follows watch connected shown stack waiting r where
  view := by
    obtain ⟨v, hview, hreflects, hdue, hwaits⟩ := h.view
    refine ⟨v, ?_, hreflects, hdue, fun hscheduled ↦ ?_⟩
    · rw [views_catchUp_of_ne hne, hview]
    · exact (List.mem_cons.mp (hwaits hscheduled)).resolve_left (Ne.symm hne)
  events := by rw [sources_catchUp, h.events]
  slots source s hsource := by
    rw [sources_catchUp] at hsource
    exact h.slots source s hsource
  ordered source s hsource := by
    rw [sources_catchUp] at hsource
    exact h.ordered source s hsource
  calm := h.calm.catchUp

/-- The view composes if it was put off. -/
theorem catchUp_self
    (h : world.Follows watch connected (r.shown watch.inputs) stack (watch.view :: waiting) r) :
    (world.catchUp answers watch.view).Follows watch connected (r.shown watch.inputs) stack waiting
      (r.endTick watch.inputs (watch.composer.apply answers)) where
  view := by
    obtain ⟨v, hview, hreflects, -, -⟩ := h.view
    refine ⟨{ v with scheduled := false }.flushed answers, ?_, hreflects.flushed.1,
      fun _ hdue ↦ ?_, fun hscheduled ↦ ?_⟩
    · rw [views_catchUp_self hview hreflects.live]
    · rw [hreflects.flushed.1.isDue, Reference.map_shown] at hdue
      have hnot := r.not_due_endTick watch.inputs (watch.composer.apply answers)
      exact absurd (hdue.symm.trans hnot) (by simp)
    · rw [View.scheduled_flushed] at hscheduled
      contradiction
  events := by rw [sources_catchUp, h.events, Reference.events_endTick]
  slots source s hsource := by
    rw [sources_catchUp] at hsource
    exact h.slots source s hsource
  ordered source s hsource := by
    rw [sources_catchUp] at hsource
    exact h.ordered source s hsource
  calm := h.calm.catchUp

end World.Follows

end LiveRecord.Flow
