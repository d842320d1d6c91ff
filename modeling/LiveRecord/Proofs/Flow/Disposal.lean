import LiveRecord.Proofs.Flow.Plugging
import LiveRecord.Proofs.Flow.Unwinding

/-!
# What is left to do for a view that is disposed of

A view that is disposed of is taken off its inputs and loses its listeners at once. It does not look
whether it is disposed of between the announcement of its failures and the call of its composer, nor
when the composer returns. So a composition that is under way at that moment is completed, and then
nothing changes any more (`Machine.unchanged_of_dispose`): if there is none, the view stays as it is
from then on, and otherwise it composes once. `Machine.composed_disposedInPass` is a run in which it
does.
-/

set_option autoImplicit false

namespace LiveRecord.Flow

variable {α β : Type}

/-! ### Loaded inputs have values -/

theorem Registry.Change.next_le {κ : Type} {new : κ → Prop} {registry registry' : Registry κ}
    (h : registry.Change new registry') : registry.next ≤ registry'.next := by
  cases h with
  | register => exact Nat.le_succ _
  | _ => exact Nat.le_refl _

namespace View

variable {v : View α β}

/-- Every input that is loaded has a value. -/
def Backed (v : View α β) : Prop := ∀ slot ∈ v.slots, slot.status = .loaded → slot.cached.isSome

theorem Backed.absorb (h : v.Backed) (slot : Nat) (event : Event α) :
    (v.absorb slot event).Backed := by
  have hmodify {f : Slot α → Slot α}
      (hf : ∀ s, (s.status = .loaded → s.cached.isSome) → (f s).status = .loaded →
        (f s).cached.isSome) :
      ∀ s ∈ v.slots.modify slot f, s.status = .loaded → s.cached.isSome := by
    intro s hs
    obtain ⟨k, hk⟩ := List.mem_iff_getElem?.mp hs
    rw [List.getElem?_modify] at hk
    obtain ⟨before, hbefore, rfl⟩ := Option.map_eq_some_iff.mp hk
    split
    · exact hf before (h before (List.mem_of_getElem? hbefore))
    · exact h before (List.mem_of_getElem? hbefore)
  cases hdisposed : v.disposed with
  | true =>
    cases event with
    | loaded value =>
      have hcached : (v.absorb slot (.loaded value)).slots =
          v.slots.modify slot fun s ↦ { s with cached := some value } := by
        simp [View.absorb, cache, hdisposed]
      rw [Backed, hcached]
      exact hmodify fun _ _ _ ↦ rfl
    | _ =>
      simp only [View.absorb, hdisposed, if_true]
      exact h
  | false =>
    rw [Backed, slots_absorb hdisposed]
    cases event with
    | loaded value => exact hmodify fun _ _ _ ↦ rfl
    | pending | failed _ => exact hmodify fun s _ hs ↦ by simp [Slot.hear] at hs

theorem Backed.exists_values (h : v.Backed) (hloaded : v.allLoaded) :
    ∃ values, v.cachedValues? = some values := by
  obtain ⟨values, hvalues⟩ : ∃ values : List α, v.slots.map (·.cached) = values.map some :=
    exists_map_eq_map_some fun slot hslot ↦
      h slot hslot (by simpa using List.all_eq_true.mp hloaded slot hslot)
  exact ⟨values, cachedValues?_eq_some_iff.mpr hvalues⟩

end View

/-! ### Compositions that are still to come -/

namespace Task

/-- The task ends with a call of the composer, if a value is due. -/
def calls (due : Bool) : Task α β → Bool
  | failing _ => due
  | announcing _ _ | composing | settling | connecting _ => false

/-- The task ends with a composed value, if one is due where the composer has not been called. -/
def composes (due : Bool) : Task α β → Bool
  | composing => true
  | failing _ => due
  | announcing _ _ | settling | connecting _ => false

theorem calls_false (task : Task α β) : task.calls false = false := by
  cases task <;> rfl

theorem composes_of_calls {due : Bool} {task : Task α β} (h : task.calls due) :
    task.composes due := by
  cases task <;> simp_all [calls, composes]

theorem composes_of_false {due : Bool} {task : Task α β} (h : task.composes false) :
    task.composes due := by
  cases task <;> simp_all [composes]

theorem works_of_composes {due : Bool} {task : Task α β} (h : task.composes due) : task.works := by
  cases task <;> simp_all [composes, works]

end Task

namespace Situation

variable {spared : Prop} {s s' : Situation α β} {seen : List (ViewNotice α β)}

/-- How often the composer is called for the tasks of the view, also if the view is disposed of. -/
def uncalled (s : Situation α β) : Nat := s.tasks.countP (·.calls s.view.isDue)

/-- How many values are composed for the tasks of the view, also if the view is disposed of. -/
def unfinished (s : Situation α β) : Nat := s.tasks.countP (·.composes s.view.isDue)

theorem uncalled_le (s : Situation α β) : s.uncalled ≤ s.unfinished :=
  List.countP_mono_left fun _ _ ↦ Task.composes_of_calls

theorem unfinished_le (s : Situation α β) : s.unfinished ≤ Task.workers s.tasks :=
  List.countP_mono_left fun _ _ ↦ Task.works_of_composes

/-- The view shows the same, and as much is left to do for it. -/
structure Lingers (s s' : Situation α β) : Prop where
  disposed : s'.view.disposed = s.view.disposed
  listeners : s'.view.listeners = s.view.listeners
  status : s'.view.status = s.view.status
  emissions : s'.view.emissions = s.view.emissions
  uncalled : s'.uncalled = s.uncalled
  unfinished : s'.unfinished = s.unfinished

namespace Lingers

theorem refl (s : Situation α β) : s.Lingers s := ⟨rfl, rfl, rfl, rfl, rfl, rfl⟩

theorem trans {s'' : Situation α β} (hfirst : s.Lingers s') (hlast : s'.Lingers s'') :
    s.Lingers s'' where
  disposed := hlast.disposed.trans hfirst.disposed
  listeners := hlast.listeners.trans hfirst.listeners
  status := hlast.status.trans hfirst.status
  emissions := hlast.emissions.trans hfirst.emissions
  uncalled := hlast.uncalled.trans hfirst.uncalled
  unfinished := hlast.unfinished.trans hfirst.unfinished

/-- Assumes: the task on top leads to no composition. -/
theorem pop {task : Task α β} {tasks : List (Task α β)} (htasks : s.tasks = task :: tasks)
    (htask : task.composes s.view.isDue = false) : s.Lingers { s with tasks } := by
  have hcalls : task.calls s.view.isDue = false :=
    Bool.eq_false_iff.mpr fun h ↦ by simpa [htask] using Task.composes_of_calls h
  refine ⟨rfl, rfl, rfl, rfl, ?_, ?_⟩
  · rw [Situation.uncalled, Situation.uncalled, htasks, List.countP_cons_of_neg (by simp [hcalls])]
  · rw [Situation.unfinished, Situation.unfinished, htasks,
      List.countP_cons_of_neg (by simp [htask])]

/-- Assumes: the new task leads to no composition. -/
theorem push {task : Task α β} (s : Situation α β) (htask : task.composes s.view.isDue = false) :
    s.Lingers (s.push task) := by
  have h : (s.push task).Lingers s := pop rfl htask
  exact ⟨rfl, rfl, rfl, rfl, h.uncalled.symm, h.unfinished.symm⟩

end Lingers

/-! #### What the operations do to a view that is disposed of -/

theorem TakesOn.lingers (htakes : s.TakesOn s') (h : s.view.disposed) : s.Lingers s' := by
  obtain ⟨failures, scheduled, composing, dirty, tasks, jobs, rfl | ⟨hactive, -⟩, rfl⟩ := htakes
  · exact ⟨rfl, rfl, rfl, rfl, rfl, rfl⟩
  · exact absurd h (by simp [hactive])

theorem Hearing.lingers {slot : Nat} {event : Event α} (hheard : s.Hearing slot event seen s')
    (h : s.view.disposed) : seen = [] ∧ s.Lingers s' := by
  cases hheard with
  | deaf => exact ⟨rfl, .refl s⟩
  | heard inTick hslot hlive hlent =>
    refine ⟨if_pos h, ?_⟩
    have hstatus := @View.map_status_absorb α β s.view slot event h
    obtain ⟨slots, -, habsorbed⟩ := View.absorb_of_disposed slot event h
    have hdue : (s.view.absorb slot event).isDue = s.view.isDue := by
      rw [View.isDue, View.allLoaded_eq, hstatus, ← View.allLoaded_eq, habsorbed]
      rfl
    unfold hear
    rw [if_pos h]
    refine ⟨?_, ?_, ?_, ?_, ?_, ?_⟩
    case refine_5 => exact congrArg (fun due ↦ s.tasks.countP (·.calls due)) hdue
    case refine_6 => exact congrArg (fun due ↦ s.tasks.countP (·.composes due)) hdue
    all_goals rw [modify, habsorbed]

/-! #### Every turn -/

/-- What one turn does to a view that is disposed of. If it is exact, no composition is dropped. -/
structure Fades (exact : Prop) (s : Situation α β) (seen : List (ViewNotice α β))
    (s' : Situation α β) : Prop where
  disposed : s'.view.disposed
  listeners : s.view.listeners.Change (fun _ ↦ True) s'.view.listeners
  heard : ∀ ticket < s.view.listeners.next, s.view.listeners.find? ticket = none →
    ViewNotice.heardBy ticket seen = []
  status : ViewNotice.compositions seen = [] → s'.view.status = s.view.status
  emissions : s'.view.emissions = s.view.emissions + (ViewNotice.compositions seen).length
  called : (ViewNotice.calls seen).length + s'.uncalled ≤ s.uncalled
  composed : (ViewNotice.compositions seen).length + s'.unfinished ≤ s.unfinished
  all : exact → (ViewNotice.compositions seen).length + s'.unfinished = s.unfinished

variable {exact : Prop}

/-- Assumes: a view that is disposed of. -/
theorem Lingers.fades (h : s.Lingers s') (hdisposed : s.view.disposed) : s.Fades exact [] s' where
  disposed := h.disposed.trans hdisposed
  listeners := h.listeners ▸ .same
  heard _ _ _ := rfl
  status _ := h.status
  emissions := h.emissions
  called := (Nat.zero_add _).trans_le (Nat.le_of_eq h.uncalled)
  composed := (Nat.zero_add _).trans_le (Nat.le_of_eq h.unfinished)
  all _ := (Nat.zero_add _).trans h.unfinished

/-- Assumes: the tasks and what the view knows and shows stay the same. -/
theorem fades_modifyListeners {f : Registry Nat → Registry Nat} (hdisposed : s.view.disposed)
    (hlisteners : s.view.listeners.Change (fun _ ↦ True) (f s.view.listeners))
    (hcalls : ViewNotice.calls seen = []) (hcompositions : ViewNotice.compositions seen = [])
    (hheard : ∀ ticket < s.view.listeners.next, ViewNotice.heardBy ticket seen = []) :
    s.Fades exact seen (s.modify fun v ↦ { v with listeners := f v.listeners }) := by
  have hnothing : (ViewNotice.compositions seen).length + s.unfinished = s.unfinished := by
    rw [hcompositions]
    exact Nat.zero_add _
  refine ⟨hdisposed, hlisteners, fun ticket hticket _ ↦ hheard ticket hticket, fun _ ↦ rfl, ?_, ?_,
    Nat.le_of_eq hnothing, fun _ ↦ hnothing⟩
  · rw [hcompositions]
    rfl
  · rw [hcalls]
    exact Nat.le_of_eq (Nat.zero_add _)

theorem counts_becomeReady (value : β) (s : Situation α β) :
    (s.becomeReady value).uncalled = s.uncalled ∧
      (s.becomeReady value).unfinished = s.unfinished := by
  constructor
  · show List.countP (·.calls s.view.isDue) (.announcing _ _ :: .settling :: s.tasks) = _
    rw [List.countP_cons_of_neg (by simp [Task.calls]),
      List.countP_cons_of_neg (by simp [Task.calls])]
    rfl
  · show List.countP (·.composes s.view.isDue) (.announcing _ _ :: .settling :: s.tasks) = _
    rw [List.countP_cons_of_neg (by simp [Task.composes]),
      List.countP_cons_of_neg (by simp [Task.composes])]
    rfl

/-- What composing does to a view that is disposed of. Assumes: for exactness, nothing else is at
work, and loaded inputs have values. -/
theorem fades_compose {tasks : List (Task α β)} (htasks : s.tasks = .failing [] :: tasks)
    (hdisposed : s.view.disposed) :
    s.Fades (Task.workers s.tasks ≤ 1 ∧ s.view.Backed) s.composeNotices
      { s with tasks }.composeIfDue := by
  unfold composeNotices composeIfDue
  by_cases hdue : s.view.isDue
  case neg =>
    rw [if_neg hdue, if_neg hdue]
    have hrest : s.Lingers { s with tasks } := Lingers.pop htasks (by simp [hdue, Task.composes])
    exact (hrest.trans ((takesOn_settle _).lingers hdisposed)).fades hdisposed
  have huncalled : s.uncalled = tasks.countP (·.calls true) + 1 := by
    rw [uncalled, htasks, hdue]
    exact List.countP_cons_of_pos rfl
  have hunfinished : s.unfinished = tasks.countP (·.composes true) + 1 := by
    rw [unfinished, htasks, hdue]
    exact List.countP_cons_of_pos rfl
  -- nothing is due any more
  let fresh : Situation α β := { s with tasks }.modify fun v ↦ { v with stale := false }
  have hcalled : fresh.uncalled = 0 :=
    List.countP_eq_zero.mpr fun task _ ↦ by simp [fresh, modify, View.isDue, Task.calls_false]
  have hcomposed : fresh.unfinished ≤ tasks.countP (·.composes true) :=
    List.countP_mono_left fun _ _ ↦ Task.composes_of_false
  have hall : Task.workers s.tasks ≤ 1 → fresh.unfinished = tasks.countP (·.composes true) := by
    intro hworkers
    rw [htasks, Task.workers_cons] at hworkers
    have hle : tasks.countP (·.composes true) ≤ Task.workers tasks :=
      List.countP_mono_left fun _ _ ↦ Task.works_of_composes
    simp only [Task.works, Bool.toNat_true] at hworkers
    omega
  have hcached : ({ s with tasks }.modify fun v ↦ { v with stale := false }).view.cachedValues? =
      s.view.cachedValues? := rfl
  have hcomposer : ({ s with tasks }.modify fun v ↦ { v with stale := false }).view.composer =
      s.view.composer := rfl
  rw [if_pos hdue, if_pos hdue]
  simp only [hcached, hcomposer]
  cases hvalues : s.view.cachedValues? with
  | none =>
    have hsettled : fresh.Lingers fresh.settle := (takesOn_settle fresh).lingers hdisposed
    refine ⟨hsettled.disposed.trans hdisposed, hsettled.listeners ▸ .same, fun _ _ _ ↦ rfl,
      fun _ ↦ hsettled.status, hsettled.emissions, ?_, ?_, fun hwhole ↦ ?_⟩
    · rw [hsettled.uncalled, hcalled]
      exact Nat.zero_le _
    · rw [hsettled.unfinished, hunfinished]
      exact (Nat.zero_add _).trans_le (Nat.le_succ_of_le hcomposed)
    · obtain ⟨values, hsome⟩ := hwhole.2.exists_values (Bool.and_eq_true_iff.mp hdue).2
      rw [hvalues] at hsome
      contradiction
  | some inputs =>
    cases s.view.composer with
    | direct compose =>
      obtain ⟨hready, hready'⟩ := counts_becomeReady (compose inputs) fresh
      refine ⟨hdisposed, .same, fun _ _ _ ↦ rfl, fun hnone ↦ ?_, rfl, ?_, ?_, fun hwhole ↦ ?_⟩
      · simp [ViewNotice.compositions] at hnone
      · rw [hready, hcalled, huncalled]
        exact Nat.le_add_left _ _
      · rw [hready', hunfinished, Nat.add_comm]
        exact Nat.succ_le_succ hcomposed
      · rw [hready', hunfinished, Nat.add_comm, hall hwhole.1]
        rfl
    | callback key =>
      have hpushed : Situation.uncalled ((fresh.modify fun v ↦ { v with lent := true }).push
          .composing) = 0 ∧ Situation.unfinished ((fresh.modify fun v ↦
            { v with lent := true }).push .composing) = fresh.unfinished + 1 :=
        ⟨hcalled, List.countP_cons_of_pos rfl⟩
      refine ⟨hdisposed, .same, fun _ _ _ ↦ rfl, fun _ ↦ rfl, rfl, ?_, ?_, fun hwhole ↦ ?_⟩
      · rw [hpushed.1, huncalled]
        exact Nat.le_add_left _ _
      · rw [hpushed.2, hunfinished]
        exact (Nat.zero_add _).trans_le (Nat.succ_le_succ hcomposed)
      · rw [hpushed.2, hunfinished, hall hwhole.1]
        exact Nat.zero_add _

/-- Assumes: a value that comes back from the composing callback. -/
theorem fades_composed {tasks : List (Task α β)} {waiting : List SourceError} {exact : Prop}
    (value : β) (htasks : s.tasks = .composing :: tasks) (hdisposed : s.view.disposed) :
    s.Fades exact [.composed value waiting]
      (({ s with tasks }.modify fun v ↦ { v with lent := false }).becomeReady value) := by
  obtain ⟨hready, hready'⟩ :=
    counts_becomeReady value ({ s with tasks }.modify fun v ↦ { v with lent := false })
  have huncalled : s.uncalled = tasks.countP (·.calls s.view.isDue) := by
    rw [uncalled, htasks, List.countP_cons_of_neg (by simp [Task.calls])]
  have hunfinished : s.unfinished = tasks.countP (·.composes s.view.isDue) + 1 := by
    rw [unfinished, htasks]
    exact List.countP_cons_of_pos rfl
  refine ⟨hdisposed, .same, fun _ _ _ ↦ rfl, fun hnone ↦ ?_, rfl, ?_, ?_, fun _ ↦ ?_⟩
  · simp [ViewNotice.compositions] at hnone
  · rw [hready, huncalled]
    exact (Nat.zero_add _).le
  · rw [hready', hunfinished, Nat.add_comm]
    exact Nat.le_refl _
  · rw [hready', hunfinished, Nat.add_comm]
    rfl

theorem Step.fades (hstep : s.Step seen s') (hdisposed : s.view.disposed) :
    s.Fades (Task.workers s.tasks ≤ 1 ∧ s.view.Backed) seen s' := by
  cases hstep with
  | keep hkept =>
    obtain ⟨gone, inputs, owned, live, -, rfl⟩ := hkept
    have hleft : s.Fades (Task.workers s.tasks ≤ 1 ∧ s.view.Backed) [] (s.modify fun v ↦
        { v with listeners := v.listeners.removeAll gone }) :=
      fades_modifyListeners hdisposed (.removeAll gone) rfl rfl fun _ _ ↦ rfl
    exact ⟨hleft.disposed, hleft.listeners, hleft.heard, hleft.status, hleft.emissions,
      hleft.called, hleft.composed, hleft.all⟩
  | register key =>
    refine fades_modifyListeners hdisposed (.register key trivial) ?_ ?_ fun ticket hticket ↦ ?_
    · cases s.view.status.event? <;> rfl
    · cases s.view.status.event? <;> rfl
    · cases s.view.status.event? with
      | none => rfl
      | some event => simp [ViewNotice.heardBy, Nat.ne_of_gt hticket]
  | dispose =>
    have hsame : s.Lingers (s.modify fun v ↦
        { v with inputs := [], disposed := true, failures := [] }) :=
      ⟨hdisposed.symm, rfl, rfl, rfl, rfl, rfl⟩
    have hcleared : s.Fades (Task.workers s.tasks ≤ 1 ∧ s.view.Backed) [] _ := hsame.fades hdisposed
    exact ⟨rfl, .clear, hcleared.heard, hcleared.status, hcleared.emissions, hcleared.called,
      hcleared.composed, hcleared.all⟩
  | hear slot event hheard =>
    obtain ⟨rfl, hsame⟩ := hheard.lingers hdisposed
    exact hsame.fades hdisposed
  | @connect input inputs tasks htasks registered event _ _ hheard =>
    obtain ⟨rfl, hsame⟩ := hheard.lingers hdisposed
    refine Lingers.fades (Lingers.trans ?_ hsame) hdisposed
    have hrest : s.Lingers { s with tasks := .connecting inputs :: tasks } :=
      (Lingers.pop htasks rfl).trans (.push { s with tasks } rfl)
    exact ⟨rfl, rfl, rfl, rfl, hrest.uncalled, hrest.unfinished⟩
  | connected inTick htasks =>
    have hrest := Lingers.pop htasks rfl
    exact (hrest.trans ((takesOn_requestCompose inTick _).lingers hdisposed)).fades hdisposed
  | run hjobs hlive =>
    refine Lingers.fades (Lingers.trans ?_ ((takesOn_flush _).lingers hdisposed)) hdisposed
    exact ⟨rfl, rfl, rfl, rfl, rfl, rfl⟩
  | skip hjobs hlive =>
    refine Lingers.fades ?_ hdisposed
    exact ⟨rfl, rfl, rfl, rfl, rfl, rfl⟩
  | fail htasks =>
    refine Lingers.fades ?_ hdisposed
    refine ⟨rfl, rfl, rfl, rfl, ?_, ?_⟩
    · rw [uncalled, uncalled, htasks, List.countP_cons_of_neg (by simp [Task.calls]),
        List.countP_cons, List.countP_cons]
      rfl
    · rw [unfinished, unfinished, htasks, List.countP_cons_of_neg (by simp [Task.composes]),
        List.countP_cons, List.countP_cons]
      rfl
  | @announce event ticket tickets tasks htasks =>
    have hrest : s.Lingers { s with tasks := .announcing event tickets :: tasks } :=
      (Lingers.pop htasks rfl).trans (.push { s with tasks } rfl)
    have hfades : s.Fades (Task.workers s.tasks ≤ 1 ∧ s.view.Backed) [] _ := hrest.fades hdisposed
    cases hfound : s.view.listeners.find? ticket with
    | none => exact hfades
    | some key =>
      refine ⟨hfades.disposed, hfades.listeners, fun other _ hgone ↦ ?_, hfades.status,
        hfades.emissions, hfades.called, hfades.composed, hfades.all⟩
      have hne : ticket ≠ other := by
        rintro rfl
        rw [hfound] at hgone
        contradiction
      simp [ViewNotice.heardBy, hne]
  | announced htasks => exact (Lingers.pop htasks rfl).fades hdisposed
  | compose htasks => exact fades_compose htasks hdisposed
  | composed htasks value => exact fades_composed value htasks hdisposed
  | settle htasks =>
    have hrest := Lingers.pop htasks rfl
    exact (hrest.trans ((takesOn_settle _).lingers hdisposed)).fades hdisposed

/-- A turn that gives something up can drop a composition. -/
theorem Turn.fades (hturn : s.Turn spared seen s') (hdisposed : s.view.disposed) :
    s.Fades False seen s' := by
  cases hturn with
  | step hstep =>
    have h := hstep.fades hdisposed
    exact ⟨h.disposed, h.listeners, h.heard, h.status, h.emissions, h.called, h.composed,
      False.elim⟩
  | lose hloss =>
    have hdrop {task : Task α β} {tasks : List (Task α β)} (htasks : s.tasks = task :: tasks) :
        tasks.countP (·.calls s.view.isDue) ≤ s.uncalled ∧
          tasks.countP (·.composes s.view.isDue) ≤ s.unfinished := by
      rw [uncalled, unfinished, htasks]
      exact ⟨(List.sublist_cons_self _ _).countP_le, (List.sublist_cons_self _ _).countP_le⟩
    cases hloss with
    | giveUp htasks hspared | takeBack htasks hspared =>
      refine ⟨hdisposed, .same, fun _ _ _ ↦ rfl, fun _ ↦ rfl, rfl, ?_, ?_, False.elim⟩
      · exact (Nat.zero_add _).trans_le (hdrop htasks).1
      · exact (Nat.zero_add _).trans_le (hdrop htasks).2
    | unschedule hjobs =>
      exact Lingers.fades ⟨rfl, rfl, rfl, rfl, rfl, rfl⟩ hdisposed

/-! #### From disposal on -/

/-- What holds of a view in the course of a run, when it was disposed of at the start. -/
structure Gone (origin s : Situation α β) (past : List (ViewNotice α β)) : Prop where
  disposed : s.view.disposed
  next : origin.view.listeners.next ≤ s.view.listeners.next
  listeners : ∀ ticket < origin.view.listeners.next, s.view.listeners.find? ticket = none
  heard : ∀ ticket < origin.view.listeners.next, ViewNotice.heardBy ticket past = []
  status : ViewNotice.compositions past = [] → s.view.status = origin.view.status
  emissions : s.view.emissions = origin.view.emissions + (ViewNotice.compositions past).length
  called : (ViewNotice.calls past).length + s.uncalled ≤ origin.uncalled
  composed : (ViewNotice.compositions past).length + s.unfinished ≤ origin.unfinished

variable {origin : Situation α β} {past : List (ViewNotice α β)}

/-- Assumes: nobody listens to the view. -/
theorem Gone.start (hdisposed : s.view.disposed)
    (hlisteners : ∀ ticket < s.view.listeners.next, s.view.listeners.find? ticket = none) :
    Gone s s [] where
  disposed := hdisposed
  next := Nat.le_refl _
  listeners := hlisteners
  heard _ _ := rfl
  status _ := rfl
  emissions := rfl
  called := (Nat.zero_add _).le
  composed := (Nat.zero_add _).le

theorem Gone.fades (h : Gone origin s past) (hfades : s.Fades exact seen s') :
    Gone origin s' (past ++ seen) := by
  have hissued : ∀ ticket < origin.view.listeners.next, ticket < s.view.listeners.next :=
    fun ticket hticket ↦ Nat.lt_of_lt_of_le hticket h.next
  constructor
  case disposed => exact hfades.disposed
  case next => exact h.next.trans hfades.listeners.next_le
  case listeners =>
    intro ticket hticket
    rcases (hfades.listeners.find?_of_given (hissued ticket hticket)).2 with hsame | hnone
    · rw [hsame]
      exact h.listeners ticket hticket
    · exact hnone
  case heard =>
    intro ticket hticket
    rw [ViewNotice.heardBy_append, h.heard ticket hticket,
      hfades.heard ticket (hissued ticket hticket) (h.listeners ticket hticket)]
    rfl
  case status =>
    rw [ViewNotice.compositions_append, List.append_eq_nil_iff]
    exact fun hnone ↦ (hfades.status hnone.2).trans (h.status hnone.1)
  case emissions =>
    rw [hfades.emissions, h.emissions, ViewNotice.compositions_append, List.length_append,
      Nat.add_assoc]
  case called =>
    rw [ViewNotice.calls_append, List.length_append, Nat.add_assoc]
    exact (Nat.add_le_add_left hfades.called _).trans h.called
  case composed =>
    rw [ViewNotice.compositions_append, List.length_append, Nat.add_assoc]
    exact (Nat.add_le_add_left hfades.composed _).trans h.composed

theorem Turn.backed (hturn : s.Turn spared seen s') (h : s.view.Backed) : s'.view.Backed := by
  rcases hturn.slots with hsame | ⟨slot, event, -, habsorbed, -⟩
  · rwa [View.Backed, hsame]
  · rw [View.Backed, habsorbed]
    exact h.absorb slot event

theorem workers_le_one (h : s.Guarded ∨ s.Stuck) : Task.workers s.tasks ≤ 1 := by
  rcases h with hguarded | hstuck
  · exact hguarded.workers ▸ Bool.toNat_le _
  · exact hstuck.workers ▸ Nat.zero_le _

/-- What holds of a view in the course of a run in which nothing raises, when that many compositions
were unfinished at the start and the view was disposed of. -/
structure Finishes (total : Nat) (s : Situation α β) (past : List (ViewNotice α β)) : Prop where
  disposed : s.view.disposed
  attended : s.Guarded ∨ s.Stuck
  backed : s.view.Backed
  all : (ViewNotice.compositions past).length + s.unfinished = total

theorem Finishes.step {total : Nat} (h : Finishes total s past) (hstep : s.Step seen s') :
    Finishes total s' (past ++ seen) := by
  have hfades := hstep.fades h.disposed
  have hturn : s.Turn False seen s' := .step hstep
  refine ⟨hfades.disposed, ?_, hturn.backed h.backed, ?_⟩
  · rcases h.attended with hguarded | hstuck
    · exact .inl (hguarded.step hstep)
    · exact .inr (hstuck.turn hturn).1
  · rw [ViewNotice.compositions_append, List.length_append, Nat.add_assoc,
      hfades.all ⟨workers_le_one h.attended, h.backed⟩, h.all]

end Situation

/-! ### Inputs that no source has any more -/

namespace World

variable {new : Listener → Prop} {world world' : World α β} {view : ViewId}

/-- No source has an input of the view among its listeners. -/
def Unplugged (view : ViewId) (world : World α β) : Prop :=
  ∀ (source : SourceId) (s : Source α), world.sources[source]? = some s →
    ∀ entry ∈ s.listeners.entries, ∀ slot, entry.2 ≠ .input view slot

theorem Change.length_views (hchange : world.Change new world') :
    world.views.length ≤ world'.views.length := by
  cases hchange with
  | addView => simp [World.addView]
  | view | unplug => simp [modifyView]
  | closeTick =>
    simp only [World.closeTick]
    split <;> exact Nat.le_refl _
  | _ => exact Nat.le_refl _

theorem Change.unplugged (hchange : world.Change new world')
    (hnew : ∀ slot, ¬ new (.input view slot)) (h : world.Unplugged view) :
    world'.Unplugged view := by
  intro source s' hsource entry hentry slot hinput
  rcases hchange.mem_listeners hsource hentry with hfresh | ⟨s, hs, hold⟩
  · exact hnew slot (hinput ▸ hfresh)
  · exact h source s hs entry hold slot hinput

/-- Assumes: the view is disposed of for the first time. -/
theorem Recorded.unplugged_dispose {v : View α β} (h : world.Recorded)
    (hview : world.views[view]? = some v) (hdisposed : v.disposed = false) :
    (world.dispose view).Unplugged view := by
  intro source s hsource entry hentry slot hinput
  have hsources : (world.dispose view).sources = (v.inputs.foldl (fun w input ↦
      w.unregister (.source input.1) input.2) world).sources := by
    simp [dispose, hview, hdisposed, disconnect, modifyView]
  rw [hsources] at hsource
  obtain ⟨before, hbefore, hkept⟩ := notMem_of_foldl_unregister v.inputs hsource
  obtain ⟨hold, hnone⟩ := hkept entry hentry
  obtain ⟨v', hv', hrecorded⟩ := h source before hbefore entry hold view slot hinput
  obtain rfl := Option.some.inj (hview.symm.trans hv')
  exact hnone hrecorded

end World

namespace Machine

variable {m : Machine α β} {view : ViewId}

/-- No source has an input of the view among its listeners, and none is left to connect. -/
structure Unplugged (view : ViewId) (m : Machine α β) : Prop where
  known : view < m.world.views.length
  connections : ∀ inputs, (view, inputs) ∉ m.connections
  world : m.world.Unplugged view

theorem Unplugged.move (move : Move α β) (h : m.Unplugged view) :
    (m.move move).Unplugged view := by
  have hchanges := changes_move move m
  constructor
  case known =>
    exact hchanges.preserves (fun _ _ hlt hchange ↦ Nat.lt_of_lt_of_le hlt hchange.length_views)
      h.known
  case connections =>
    intro inputs hinputs
    rcases mem_connections_move hinputs with ⟨before, hbefore, -⟩ | ⟨hnew, -⟩
    · exact h.connections before hbefore
    · exact absurd hnew (Nat.ne_of_lt h.known)
  case world =>
    refine hchanges.preserves (fun _ _ hworld hchange ↦ hchange.unplugged (fun slot hmay ↦ ?_) hworld)
      h.world
    obtain ⟨source, inputs, stack, hstack⟩ := hmay
    refine h.connections ((source, slot) :: inputs) ?_
    rw [Machine.connections, hstack]
    exact List.mem_cons_self

/-- Every input that is loaded has a value, after every run. -/
theorem backed_run {moves : List (Move α β)} {s : Situation α β}
    (h : (run moves {}).situation view = some s) : s.view.Backed := by
  refine @turn_invariant α β view (fun s _ ↦ s.view.Backed) (fun s hfresh ↦ ?_)
    (fun s past seen s' hs hturn ↦ hturn.backed hs) moves s h
  obtain ⟨label, composer, count, inputs, hnew, -⟩ := hfresh
  intro slot hslot hloaded
  rw [hnew] at hslot
  rw [List.eq_of_mem_replicate hslot] at hloaded
  contradiction

/-! ### Disposal is final but for a composition under way -/

/-- How many values the view still composes if it is disposed of now: one for a composing callback
that is at work, and one for a value that is due when the failures at work have been announced. -/
def unfinished (view : ViewId) (m : Machine α β) : Nat := (m.situation view).elim 0 (·.unfinished)

section Dispose

variable {before after : List (Move α β)} {v : View α β} {s : Situation α β}

/-- Assumes: a view that has not been disposed of. -/
theorem situation_move_dispose (huser : m.hasUser) (h : m.situation view = some s)
    (hactive : s.view.disposed = false) :
    (m.move (.request (.dispose view))).situation view = some (s.modify fun v ↦
      { v with inputs := [], disposed := true, listeners := v.listeners.clear, failures := [] }) := by
  have hmoved : m.move (.request (.dispose view)) = (m.withWorld (.dispose view)).returning .done :=
    submit_eq_serve huser _
  rw [hmoved]
  exact situation_dispose h hactive

/-- Assumes: a view that has not been disposed of, and whose inputs have been connected. -/
theorem unplugged_move_dispose (huser : (run before {}).hasUser)
    (hview : (run before {}).world.views[view]? = some v)
    (hbuilt : ∀ inputs, .connecting view inputs ∉ (run before {}).stack)
    (hactive : v.disposed = false) :
    ((run before {}).move (.request (.dispose view))).Unplugged view := by
  have hthere := view_of_situation
    (situation_move_dispose huser (situation_of_view hview) hactive)
  have hmoved : (run before {}).move (.request (.dispose view)) =
      ((run before {}).withWorld (.dispose view)).returning .done := submit_eq_serve huser _
  refine ⟨(List.getElem?_eq_some_iff.mp hthere).1, fun inputs hinputs ↦ ?_, ?_⟩
  case refine_2 =>
    rw [hmoved]
    exact (recorded_run before).unplugged_dispose hview hactive
  case refine_1 =>
    rw [hmoved] at hinputs
    obtain ⟨frame, hframe, hconnection⟩ := List.mem_filterMap.mp hinputs
    cases frame with
    | connecting j left =>
      obtain ⟨rfl, rfl⟩ := Prod.mk.inj (Option.some.inj hconnection)
      exact hbuilt left hframe
    | _ => simp [Frame.connection?] at hconnection

/-- If nothing raises, a composition that was unfinished is completed. Assumes: a view that has not
been disposed of. -/
theorem compositions_of_dispose (huser : (run before {}).hasUser)
    (hview : (run before {}).world.views[view]? = some v) (hactive : v.disposed = false)
    (hfree : Along RaiseFree after ((run before {}).move (.request (.dispose view))))
    (hrest : (((run before {}).move (.request (.dispose view))).run after).AtRest) :
    (ViewNotice.compositions (historyOf view
      (((run before {}).move (.request (.dispose view))).history after))).length =
        (run before {}).unfinished view := by
  have hsituation := situation_of_view hview
  have hgrounded := Grounded.start.run before
  have hsound : ((run before {}).move (.request (.dispose view))).Sound := by
    refine ⟨(hgrounded.move _).attended, (hgrounded.move _).wired, ?_⟩
    rw [Machine.move, submit_eq_serve huser]
    rfl
  have hbacked : v.Backed := backed_run hsituation
  have hfinishes : Situation.Finishes ((run before {}).unfinished view) (Situation.modify (fun v ↦
      { v with inputs := [], disposed := true, listeners := v.listeners.clear, failures := [] })
        { view := v, tasks := (run before {}).tasks view, jobs := (run before {}).jobs view }) [] := by
    refine ⟨rfl, ?_, hbacked, ?_⟩
    · rcases guarded_or_stuck hsituation with hguarded | hstuck
      · exact .inl (hguarded.step .dispose)
      · exact .inr ⟨hstuck.composing, hstuck.workers⟩
    · rw [unfinished, hsituation]
      exact Nat.zero_add _
  obtain ⟨s', hs', hfinished⟩ := hsound.situation_run (fun _ _ _ _ h hstep ↦ h.step hstep) hfree
    (situation_move_dispose huser hsituation hactive) hfinishes
  have hnothing : s'.unfinished = 0 := by
    have htasks := tasks_of_situation hs'
    rw [tasks, hrest.1] at htasks
    rw [Situation.unfinished, ← htasks]
    rfl
  have hall := hfinished.all
  rwa [List.nil_append, hnothing, Nat.add_zero] at hall

end Dispose

/-- Once a view has been disposed of, no source counts it as a listener, and nobody hears it who
listened before. Its composer is called, and its status and the number of its emissions change, no
further than by the composition that was unfinished. If there was none, nothing changes, whatever
happens; if there was one and nothing raises, it is completed. Assumes: the inputs of the view have
been connected. -/
theorem unchanged_of_dispose (before after : List (Move α β)) (view : ViewId) {v : View α β}
    (huser : (run before {}).hasUser) (hview : (run before {}).world.views[view]? = some v)
    (hbuilt : ∀ inputs, .connecting view inputs ∉ (run before {}).stack)
    (hactive : v.disposed = false) :
    let start := run before ({} : Machine α β)
    let disposed := start.move (.request (.dispose view))
    let seen := historyOf view (disposed.history after)
    ∃ v', (disposed.run after).world.views[view]? = some v' ∧ v'.disposed ∧
      (disposed.run after).world.Unplugged view ∧
      (∀ ticket < v.listeners.next, ViewNotice.heardBy ticket seen = []) ∧
      v'.emissions = v.emissions + (ViewNotice.compositions seen).length ∧
      (ViewNotice.compositions seen).length ≤ start.unfinished view ∧
      (ViewNotice.calls seen).length ≤ start.unfinished view ∧ start.unfinished view ≤ 1 ∧
      (start.unfinished view = 0 → v'.status = v.status) ∧
      (Along RaiseFree after disposed → (disposed.run after).AtRest →
        v'.emissions = v.emissions + start.unfinished view) := by
  intro start disposed seen
  let s : Situation α β := { view := v, tasks := start.tasks view, jobs := start.jobs view }
  have hsituation : start.situation view = some s := situation_of_view hview
  have hunfinished : start.unfinished view = s.unfinished := by
    rw [unfinished, hsituation]
    rfl
  have hgrounded : start.Grounded := Grounded.start.run before
  obtain ⟨s', hs', hends⟩ := (hgrounded.move (.request (.dispose view))).turn_run
    (fun _ _ _ _ h hturn ↦ Situation.Gone.fades h (hturn.fades h.disposed)) after
    (situation_move_dispose huser hsituation hactive)
    (Situation.Gone.start rfl fun ticket _ ↦ Registry.find?_clear ticket _)
  rw [List.nil_append] at hends
  have hcomposed : (ViewNotice.compositions seen).length ≤ start.unfinished view :=
    hunfinished ▸ Nat.le_of_add_right_le hends.composed
  have hunplugged := unplugged_move_dispose huser hview hbuilt hactive
  refine ⟨s'.view, view_of_situation hs', hends.disposed,
    (run_preserves (fun _ move h ↦ h.move move) hunplugged after).world, hends.heard,
    hends.emissions, hcomposed, ?_, ?_, fun hnone ↦ hends.status ?_, fun hfree hrest ↦ ?_⟩
  · rw [hunfinished]
    exact (Nat.le_of_add_right_le hends.called).trans s.uncalled_le
  · rw [hunfinished]
    exact s.unfinished_le.trans (Situation.workers_le_one (guarded_or_stuck hsituation))
  · rw [hnone, Nat.le_zero] at hcomposed
    exact List.eq_nil_of_length_eq_zero hcomposed
  · rw [hends.emissions, compositions_of_dispose huser hview hactive hfree hrest]
    rfl

/-- A view over one source that two listeners hear. -/
def heardByTwo : List (Move Nat (List Nat)) :=
  Move.script 12 [.newSource "a", .build [0] (.direct id), .subscribe (.view 0) 7,
    .subscribe (.view 0) 8]

/-- The first listener is called with a value. -/
def readyFirst : List (Move Nat (List Nat)) := heardByTwo ++ Move.script 12 [.emit 0 (.loaded 1)]

/-- The pass goes on, and a value is emitted. -/
def goingOn : List (Move Nat (List Nat)) :=
  .advance :: Move.script 10 [.finish, .emit 0 (.loaded 2)]

set_option maxRecDepth 4000 in
theorem unchanged_disposedInPass :
    ∃ v', (((run readyFirst {}).move (.request (.dispose 0))).run goingOn).world.views[0]? = some v' ∧
      v'.status = .ready [1] ∧ v'.emissions = 1 ∧
      ViewNotice.heardBy 1 (historyOf 0
        (((run readyFirst {}).move (.request (.dispose 0))).history goingOn)) = [] := by
  have hview : (run readyFirst {}).world.views[0]? = some
      { label := "a", composer := .direct id, inputs := [(0, 0)],
        slots := [{ status := .loaded, cached := some 1 }], status := .ready [1],
        listeners := { next := 2, entries := [(0, 7), (1, 8)] }, stale := false, composing := true,
        emissions := 1, owned := true } := by cbv
  have hstack : (run readyFirst {}).stack =
      [.calling (.viewEvent 7 (.ready [1])) (some (.view 0, 0)), .announcing 0 (.ready [1]) [1],
        .settling 0, .holding 0, .draining [] (.accepted true)] := by cbv
  have hnone : (run readyFirst {}).unfinished 0 = 0 := by decide +kernel
  have huser : (run readyFirst {}).hasUser := by decide +kernel
  have hbuilt : ∀ inputs, .connecting 0 inputs ∉ (run readyFirst {}).stack := by
    intro inputs hmem
    simp [hstack] at hmem
  obtain ⟨v', hview', -, -, hheard, hemissions, hcomposed, -, -, hstatus, -⟩ :=
    unchanged_of_dispose readyFirst goingOn 0 huser hview hbuilt rfl
  rw [hnone, Nat.le_zero] at hcomposed
  rw [hcomposed] at hemissions
  exact ⟨v', hview', hstatus hnone, hemissions, hheard 1 (by decide)⟩

/-- The first listener is called with a failure, and the input recovers. -/
def recoveredAtOnce : List (Move Nat (List Nat)) :=
  heardByTwo ++ Move.script 12 [.emit 0 (.failed ⟨"a", "lost"⟩), .emit 0 (.loaded 2)]

set_option maxRecDepth 4000 in
theorem composed_disposedInPass :
    let start := run recoveredAtOnce ({} : Machine Nat (List Nat))
    let disposed := start.move (.request (.dispose 0))
    let after := .advance :: Move.script 12 [.finish]
    start.world.views.map (fun v ↦ (v.disposed, v.status, v.emissions)) =
        [(false, .failed ⟨"a", "lost"⟩, 0)] ∧
      (disposed.run after).AtRest ∧
      (disposed.run after).world.views.map (fun v ↦ (v.disposed, v.status, v.emissions)) =
        [(true, .ready [2], 1)] ∧
      ViewNotice.calls (historyOf 0 (disposed.history after)) = [[2]] := by
  decide +kernel

end Machine

end LiveRecord.Flow
