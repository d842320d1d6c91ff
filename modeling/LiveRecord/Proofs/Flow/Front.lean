import LiveRecord.Proofs.Flow.Announcement

/-!
# A view from the side of its listeners

What listeners have to do with a view is its front: what it shows, who listens, which failures are
still to be announced, and which passes over the listeners are under way. Every step of a view in a
run in which nothing raises is a step of its front (`Situation.Regular.advances`), and the
chronicle of a run lists what the steps of the front do: emissions, passes that begin, and calls of
listeners. What the steps of a front preserve, every run preserves (`Machine.front_run`,
`Machine.front_invariant`).
-/

set_option autoImplicit false

namespace LiveRecord.Flow

variable {α β : Type}

/-! ### Emissions and passes -/

namespace ViewEvent

def error? : ViewEvent β → Option SourceError
  | failed error => some error
  | ready _ => none

def value? : ViewEvent β → Option β
  | ready value => some value
  | failed _ => none

@[simp] theorem error?_failed (error : SourceError) :
    (failed error : ViewEvent β).error? = some error := rfl

@[simp] theorem error?_ready (value : β) : (ready value).error? = none := rfl

@[simp] theorem value?_failed (error : SourceError) :
    (failed error : ViewEvent β).value? = none := rfl

@[simp] theorem value?_ready (value : β) : (ready value).value? = some value := rfl

end ViewEvent

/-- A pass over the listeners of a view: the event, and the tickets that are left to be called. -/
structure Pass (β : Type) where
  event : ViewEvent β
  tickets : List Nat
deriving DecidableEq

/-- The events of the passes that have begun, where passes begin on top of those under way. -/
def Pass.begun (before after : List (Pass β)) : List (ViewEvent β) :=
  (after.take (after.length - before.length)).map (·.event)

@[simp] theorem Pass.begun_self (passes : List (Pass β)) : begun passes passes = [] := by
  simp [begun]

@[simp] theorem Pass.begun_cons (pass : Pass β) (passes : List (Pass β)) :
    begun passes (pass :: passes) = [pass.event] := by
  simp [begun]

theorem Pass.begun_of_length_le {before after : List (Pass β)} (h : after.length ≤ before.length) :
    begun before after = [] := by
  simp [begun, Nat.sub_eq_zero_of_le h]

/-- What the chronicle of a view records. -/
inductive Entry (β : Type)
  /-- An input of the view was given a failure. -/
  | failed (error : SourceError)
  /-- A value was composed, while these failures had not been announced yet. -/
  | composed (value : β) (waiting : List SourceError)
  /-- A pass over the listeners began. -/
  | began (event : ViewEvent β)
  /-- A listener was called. -/
  | heard (ticket : Nat) (event : ViewEvent β)
deriving DecidableEq

def ViewNotice.record? : ViewNotice α β → Option (Entry β)
  | delivered _ (.failed error) => some (.failed error)
  | composed value waiting => some (.composed value waiting)
  | heard ticket event => some (.heard ticket event)
  | _ => none

def Entry.emission? : Entry β → Option (ViewEvent β)
  | failed error => some (.failed error)
  | composed value _ => some (.ready value)
  | _ => none

def Entry.pass? : Entry β → Option (ViewEvent β)
  | began event => some event
  | _ => none

def Entry.heardBy? (ticket : Nat) : Entry β → Option (ViewEvent β)
  | heard other event => if other = ticket then some event else none
  | _ => none

/-! ### The front of a view -/

/-- What a view shows, who listens to it, and what it has still to tell them. -/
structure Front (β : Type) where
  status : ViewStatus β := .pending
  emissions : Nat := 0
  disposed : Bool := false
  listeners : Registry Nat := {}
  /-- The failures for which no pass has begun yet. -/
  unannounced : List SourceError := []
  /-- The passes under way, the innermost first. -/
  passes : List (Pass β) := []

/-- What one step of a view does to its front, and what the chronicle records of it. -/
inductive Front.Step (d : Front β) : List (Entry β) → Front β → Prop
  | idle : Step d [] d
  | fail (error : SourceError) (hdisposed : d.disposed = false) :
      Step d [.failed error]
        { d with status := .failed error, unannounced := d.unannounced ++ [error] }
  | announce {error : SourceError} {errors : List SourceError}
      (hnext : d.unannounced = error :: errors) (hpasses : d.passes = []) :
      Step d [.began (.failed error)]
        { d with unannounced := errors, passes := [⟨.failed error, d.listeners.tickets⟩] }
  | compose (value : β) (hpasses : d.passes = []) :
      Step d [.composed value d.unannounced, .began (.ready value)]
        { d with
          status := .ready value
          emissions := d.emissions + 1
          passes := [⟨.ready value, d.listeners.tickets⟩] }
  | call {event : ViewEvent β} {ticket : Nat} {tickets : List Nat}
      (hpasses : d.passes = [⟨event, ticket :: tickets⟩]) :
      Step d ((d.listeners.find? ticket).toList.map fun _ ↦ .heard ticket event)
        { d with passes := [⟨event, tickets⟩] }
  | finish {event : ViewEvent β} (hpasses : d.passes = [⟨event, []⟩]) :
      Step d [] { d with passes := [] }
  | register (key : Nat) :
      Step d (d.status.event?.toList.map (.heard d.listeners.next))
        { d with listeners := d.listeners.register key }
  | unregister (gone : List Nat) : Step d [] { d with listeners := d.listeners.removeAll gone }
  /-- What has not been taken up yet is never announced. -/
  | dispose {errors : List SourceError} (hshorter : errors <+: d.unannounced) :
      Step d []
        { d with disposed := true, listeners := d.listeners.clear, unannounced := errors }

namespace Task

/-- The pass that a task carries out. -/
def pass? : Task α β → Option (Pass β)
  | announcing event tickets => some ⟨event, tickets⟩
  | _ => none

def passes (tasks : List (Task α β)) : List (Pass β) := tasks.filterMap (·.pass?)

/-- The failures that a task has taken up to announce them. -/
def taken : Task α β → List SourceError
  | failing errors => errors
  | _ => []

section Cons

variable (event : ViewEvent β) (tickets : List Nat) (errors : List SourceError)
  (tasks : List (Task α β))

@[simp] theorem passes_nil : passes ([] : List (Task α β)) = [] := rfl

@[simp] theorem passes_announcing :
    passes (.announcing event tickets :: tasks) = ⟨event, tickets⟩ :: passes tasks := rfl

@[simp] theorem passes_failing : passes (.failing errors :: tasks) = passes tasks := rfl

@[simp] theorem passes_connecting (inputs : List (SourceId × Nat)) :
    passes (.connecting inputs :: tasks) = passes tasks := rfl

@[simp] theorem passes_composing : passes (.composing :: tasks) = passes tasks := rfl

@[simp] theorem passes_settling : passes (.settling :: tasks) = passes tasks := rfl

@[simp] theorem taken_announcing : (announcing event tickets : Task α β).taken = [] := rfl

@[simp] theorem taken_failing : (failing errors : Task α β).taken = errors := rfl

@[simp] theorem taken_connecting (inputs : List (SourceId × Nat)) :
    (connecting inputs : Task α β).taken = [] := rfl

@[simp] theorem taken_composing : (composing : Task α β).taken = [] := rfl

@[simp] theorem taken_settling : (settling : Task α β).taken = [] := rfl

end Cons

theorem passes_eq_nil {tasks : List (Task α β)} (h : ∀ task ∈ tasks, task.announces = false) :
    passes tasks = [] := by
  refine List.filterMap_eq_nil_iff.mpr fun task htask ↦ ?_
  have hquiet := h task htask
  cases task with
  | announcing event tickets => simp [announces] at hquiet
  | _ => rfl

theorem taken_eq_nil {tasks : List (Task α β)} (h : workers tasks = 0) :
    tasks.flatMap (·.taken) = [] := by
  refine List.flatMap_eq_nil_iff.mpr fun task htask ↦ ?_
  have hidle := List.countP_eq_zero.mp h task htask
  cases task with
  | failing errors => simp [works] at hidle
  | _ => rfl

end Task

namespace Situation

variable {s s' s'' : Situation α β} {seen : List (ViewNotice α β)}

def unannounced (s : Situation α β) : List SourceError :=
  s.tasks.flatMap (·.taken) ++ s.view.failures

def front (s : Situation α β) : Front β where
  status := s.view.status
  emissions := s.view.emissions
  disposed := s.view.disposed
  listeners := s.view.listeners
  unannounced := s.unannounced
  passes := Task.passes s.tasks

/-- What a step records of a view. -/
def entries (s : Situation α β) (seen : List (ViewNotice α β)) (s' : Situation α β) :
    List (Entry β) :=
  seen.filterMap (·.record?) ++ (Pass.begun s.front.passes s'.front.passes).map .began

/-- The news of a view is in order: one task goes through it, an announcement is on its behalf, and
a view that was disposed of keeps no news. -/
structure Regular (s : Situation α β) : Prop where
  accounted : s.Accounted
  orderly : s.Orderly
  silent : s.view.disposed → s.view.failures = []

/-- One step of a view, as a step of its front. -/
structure Advances (s : Situation α β) (seen : List (ViewNotice α β)) (s' : Situation α β) :
    Prop where
  front : s.front.Step (s.entries seen s') s'.front
  orderly : s'.Orderly
  silent : s'.view.disposed → s'.view.failures = []

/-- The front stays the same. -/
structure Alike (s s' : Situation α β) : Prop where
  front : s'.front = s.front
  orderly : s'.Orderly
  silent : s'.view.disposed → s'.view.failures = []

theorem entries_of_passes_eq (h : s'.front.passes = s.front.passes) :
    s.entries seen s' = seen.filterMap (·.record?) := by
  rw [entries, h, Pass.begun_self, List.map_nil, List.append_nil]

theorem Alike.trans (hfirst : s.Alike s') (hlast : s'.Alike s'') : s.Alike s'' :=
  ⟨hlast.front.trans hfirst.front, hlast.orderly, hlast.silent⟩

theorem Alike.advances (h : s.Alike s') (hseen : seen.filterMap (·.record?) = []) :
    s.Advances seen s' := by
  refine ⟨?_, h.orderly, h.silent⟩
  rw [entries_of_passes_eq (congrArg Front.passes h.front), hseen, h.front]
  exact .idle

theorem Alike.trans_advances (hfirst : s.Alike s') (hlast : s'.Advances seen s'') :
    s.Advances seen s'' := by
  refine ⟨?_, hlast.orderly, hlast.silent⟩
  have hfront := hlast.front
  rwa [entries, hfirst.front] at hfront

theorem Advances.trans_alike (hfirst : s.Advances seen s') (hlast : s'.Alike s'') :
    s.Advances seen s'' := by
  refine ⟨?_, hlast.orderly, hlast.silent⟩
  rw [entries, hlast.front]
  exact hfirst.front

/-! #### What the operations of the core do to the front -/

/-- Assumes: nothing goes through the news of the view. -/
theorem alike_workOff (hworkers : Task.workers s.tasks = 0)
    (hannounces : ∀ task ∈ s.tasks, task.announces = false)
    (hsilent : s.view.disposed → s.view.failures = []) : s.Alike s.workOff := by
  have htaken : s.tasks.flatMap (·.taken) = [] := Task.taken_eq_nil hworkers
  unfold workOff
  by_cases hdisposed : s.view.disposed
  · rw [if_pos hdisposed]
    exact ⟨rfl, ⟨fun task htask ↦ hannounces task (List.mem_of_mem_tail htask),
      fun _ ↦ hannounces⟩, hsilent⟩
  · rw [if_neg hdisposed]
    refine ⟨?_, .push hannounces rfl, fun _ ↦ rfl⟩
    simp [front, unannounced, push, modify, htaken]

theorem alike_flush (hstaffed : s.Staffed) (horderly : s.Orderly)
    (hsilent : s.view.disposed → s.view.failures = []) : s.Alike s.flush := by
  unfold flush
  by_cases hcomposing : s.view.composing
  · rw [if_pos hcomposing]
    exact ⟨rfl, ⟨horderly.below, horderly.idle⟩, hsilent⟩
  · rw [if_neg hcomposing]
    have hworkers : Task.workers s.tasks = 0 := by simpa [hcomposing] using hstaffed.workers
    have hwork : Alike (s.modify fun v ↦ { v with composing := true })
        (s.modify fun v ↦ { v with composing := true }).workOff :=
      alike_workOff hworkers (horderly.idle hworkers) hsilent
    exact ⟨hwork.front, hwork.orderly, hwork.silent⟩

theorem alike_requestCompose (inTick : Bool) (hstaffed : s.Staffed) (horderly : s.Orderly)
    (hsilent : s.view.disposed → s.view.failures = []) : s.Alike (s.requestCompose inTick) := by
  unfold requestCompose
  split
  · exact alike_flush hstaffed horderly hsilent
  · split
    · exact ⟨rfl, horderly, hsilent⟩
    · exact ⟨rfl, ⟨horderly.below, horderly.idle⟩, hsilent⟩

/-- Assumes: nothing goes through the news of the view any more. -/
theorem alike_settle (hworkers : Task.workers s.tasks = 0)
    (hannounces : ∀ task ∈ s.tasks, task.announces = false)
    (hsilent : s.view.disposed → s.view.failures = []) : s.Alike s.settle := by
  unfold settle
  split
  · exact alike_workOff hworkers hannounces hsilent
  · exact ⟨rfl, ⟨fun task htask ↦ hannounces task (List.mem_of_mem_tail htask),
      fun _ ↦ hannounces⟩, hsilent⟩

/-- A task that is done is taken off. Assumes: it has nothing to announce. -/
theorem Regular.pop {task : Task α β} {tasks : List (Task α β)} (h : s.Regular)
    (htasks : s.tasks = task :: tasks) (hpass : task.pass? = none) (htaken : task.taken = []) :
    s.Alike { s with tasks } := by
  have hannounces := h.orderly.tail htasks
  refine ⟨?_, ⟨fun other hother ↦ hannounces other (List.mem_of_mem_tail hother),
    fun _ ↦ hannounces⟩, h.silent⟩
  simp [front, unannounced, htasks, Task.passes, hpass, htaken]

theorem advances_hear_failed (slot : Nat) (error : SourceError) (horderly : s.Orderly)
    (hdisposed : s.view.disposed = false) :
    s.Advances [.delivered slot (.failed error)] (s.modify (.absorb slot (.failed error))) := by
  have hfront : (s.modify (.absorb slot (.failed error))).front =
      { s.front with status := .failed error, unannounced := s.front.unannounced ++ [error] } := by
    rw [modify, View.absorb_failed error hdisposed]
    simp [front, unannounced]
  refine ⟨?_, ⟨horderly.below, horderly.idle⟩, fun hgone ↦ ?_⟩
  · rw [entries_of_passes_eq (by rw [hfront]), hfront]
    exact .fail error hdisposed
  · rw [modify, View.absorb_failed error hdisposed] at hgone
    exact absurd hgone (by simp [hdisposed])

theorem Staffed.hearing {slot : Nat} {event : Event α} (hstaffed : s.Staffed) (horderly : s.Orderly)
    (hsilent : s.view.disposed → s.view.failures = []) (hheard : s.Hearing slot event seen s') :
    s.Advances seen s' := by
  cases hheard with
  | deaf => exact Alike.advances ⟨rfl, horderly, hsilent⟩ rfl
  | heard inTick hslot hlive hlent =>
    unfold Situation.hear
    by_cases hdisposed : s.view.disposed
    · obtain ⟨slots, -, habsorbed⟩ := View.absorb_of_disposed slot event hdisposed
      rw [if_pos hdisposed, if_pos hdisposed]
      simp only [modify, habsorbed]
      exact Alike.advances ⟨rfl, ⟨horderly.below, horderly.idle⟩, hsilent⟩ rfl
    · rw [if_neg hdisposed, if_neg hdisposed]
      rw [Bool.not_eq_true] at hdisposed
      cases event with
      | pending =>
        simp only [modify, View.absorb_pending hdisposed]
        exact Alike.advances ⟨rfl, ⟨horderly.below, horderly.idle⟩, hsilent⟩ rfl
      | loaded value =>
        have habsorbed : s.Alike (s.modify (.absorb slot (.loaded value))) := by
          simp only [modify, View.absorb_loaded value hdisposed]
          exact ⟨rfl, ⟨horderly.below, horderly.idle⟩, hsilent⟩
        refine (habsorbed.trans (alike_requestCompose inTick ?_ habsorbed.orderly
          habsorbed.silent)).advances rfl
        simp only [modify, View.absorb_loaded value hdisposed]
        exact ⟨hstaffed.workers, hstaffed.dirty, hstaffed.scheduled⟩
      | failed error =>
        have hfailed : s.Advances [.delivered slot (.failed error)]
            (s.modify (.absorb slot (.failed error))) :=
          advances_hear_failed slot error horderly hdisposed
        refine hfailed.trans_alike (alike_flush ?_ hfailed.orderly hfailed.silent)
        simp only [modify, View.absorb_failed error hdisposed]
        exact ⟨hstaffed.workers, hstaffed.dirty, hstaffed.scheduled⟩

/-- Assumes: nothing goes through the news of the view any more, and the value comes out of the
composer. -/
theorem advances_becomeReady (value : β) (hworkers : Task.workers s.tasks = 0)
    (hannounces : ∀ task ∈ s.tasks, task.announces = false)
    (hsilent : s.view.disposed → s.view.failures = [])
    (hseen : seen.filterMap (·.record?) = [.composed value s.view.failures]) :
    s.Advances seen (s.becomeReady value) := by
  have hpasses : s.front.passes = [] := Task.passes_eq_nil hannounces
  have hunannounced : s.front.unannounced = s.view.failures := by
    simp [front, unannounced, Task.taken_eq_nil hworkers]
  have hready : (s.becomeReady value).front =
      { s.front with
        status := .ready value
        emissions := s.front.emissions + 1
        passes := [⟨.ready value, s.front.listeners.tickets⟩] } := by
    have hrest : Task.passes s.tasks = [] := hpasses
    simp [becomeReady, front, unannounced, push, modify, View.becomeReady, hrest]
  refine ⟨?_, ⟨?_, fun hnone ↦ ?_⟩, hsilent⟩
  · rw [entries, hseen, hready, hpasses, Pass.begun_cons, ← hunannounced]
    exact .compose value hpasses
  · intro task htask
    rcases List.mem_cons.mp htask with rfl | hrest
    · rfl
    · exact hannounces task hrest
  · simp [becomeReady, push, Task.workers_cons, Task.works] at hnone

/-- Assumes: nothing goes through the news of the view any more. -/
theorem advances_composeIfDue (hworkers : Task.workers s.tasks = 0)
    (hannounces : ∀ task ∈ s.tasks, task.announces = false)
    (hsilent : s.view.disposed → s.view.failures = []) :
    s.Advances s.composeNotices s.composeIfDue := by
  unfold composeIfDue composeNotices
  by_cases hdue : s.view.isDue
  · rw [if_pos hdue, if_pos hdue]
    have hfresh : s.Alike (s.modify fun v ↦ { v with stale := false }) :=
      ⟨rfl, ⟨fun task htask ↦ hannounces task (List.mem_of_mem_tail htask), fun _ ↦ hannounces⟩,
        hsilent⟩
    have hcached : (s.modify fun v ↦ { v with stale := false }).view.cachedValues? =
        s.view.cachedValues? := rfl
    have hcomposer : (s.modify fun v ↦ { v with stale := false }).view.composer =
        s.view.composer := rfl
    simp only [hcached, hcomposer]
    cases s.view.cachedValues? with
    | none => exact (hfresh.trans (alike_settle hworkers hannounces hsilent)).advances rfl
    | some inputs =>
      cases s.view.composer with
      | direct compose =>
        exact hfresh.trans_advances (advances_becomeReady _ hworkers hannounces hsilent rfl)
      | callback key =>
        refine Alike.advances ⟨?_, .push hannounces rfl, hsilent⟩ rfl
        simp [front, unannounced, push, modify]
  · rw [if_neg hdue, if_neg hdue]
    exact (alike_settle hworkers hannounces hsilent).advances rfl

/-! #### A pass -/

section Pass

variable {error : SourceError} {errors : List SourceError} {event : ViewEvent β} {ticket : Nat}
  {tickets : List Nat} {task : Task α β} {tasks : List (Task α β)}

/-- Below the task on top, nothing is announced. -/
theorem Regular.passes_eq (h : s.Regular) (htasks : s.tasks = task :: tasks) :
    s.front.passes = task.pass?.toList ∧ Task.passes tasks = [] := by
  have hrest : Task.passes tasks = [] := Task.passes_eq_nil (h.orderly.tail htasks)
  refine ⟨?_, hrest⟩
  show Task.passes s.tasks = _
  rw [htasks, Task.passes, List.filterMap_cons]
  cases task.pass? with
  | none => exact hrest
  | some pass => exact congrArg (pass :: ·) hrest

theorem Regular.advances_fail (h : s.Regular)
    (htasks : s.tasks = .failing (error :: errors) :: tasks) :
    s.Advances [] { s with
      tasks := .announcing (.failed error) s.view.listeners.tickets :: .failing errors :: tasks } := by
  obtain ⟨hpasses, hnone⟩ := h.passes_eq htasks
  have hnext : s.front.unannounced =
      error :: (errors ++ (tasks.flatMap (·.taken) ++ s.view.failures)) := by
    simp [front, unannounced, htasks]
  let pass : Task α β := .announcing (.failed error) s.view.listeners.tickets
  have hfront : Situation.front { s with tasks := pass :: .failing errors :: tasks } =
      { s.front with
        unannounced := errors ++ (tasks.flatMap (·.taken) ++ s.view.failures)
        passes := [⟨.failed error, s.front.listeners.tickets⟩] } := by
    simp [pass, front, unannounced, hnone]
  refine ⟨?_, ⟨fun other hother ↦ ?_, fun hidle ↦ ?_⟩, h.silent⟩
  · rw [entries, hfront, hpasses]
    exact .announce hnext hpasses
  · rcases List.mem_cons.mp hother with rfl | hmem
    · rfl
    · exact h.orderly.tail htasks other hmem
  · simp [Task.workers_cons, Task.works] at hidle

theorem Regular.advances_announce (h : s.Regular)
    (htasks : s.tasks = .announcing event (ticket :: tickets) :: tasks) :
    s.Advances ((s.view.listeners.find? ticket).toList.map fun _ ↦ .heard ticket event)
      { s with tasks := .announcing event tickets :: tasks } := by
  obtain ⟨hpasses, hnone⟩ := h.passes_eq htasks
  have hfront : Situation.front { s with tasks := .announcing event tickets :: tasks } =
      { s.front with passes := [⟨event, tickets⟩] } := by
    simp [front, unannounced, htasks, hnone]
  have hseen : ((s.view.listeners.find? ticket).toList.map fun _ ↦
      (.heard ticket event : ViewNotice α β)).filterMap (·.record?) =
        (s.front.listeners.find? ticket).toList.map fun _ ↦ .heard ticket event := by
    simp only [front]
    cases s.view.listeners.find? ticket <;> rfl
  refine ⟨?_, ⟨h.orderly.tail htasks, fun hidle ↦ ?_⟩, h.silent⟩
  · rw [entries, hseen, hfront, Pass.begun_of_length_le (by rw [hpasses]; exact Nat.le_refl 1),
      List.map_nil, List.append_nil]
    exact .call hpasses
  · -- an announcement is on behalf of a task that works
    have hworkers : Task.workers s.tasks = 0 := by
      rw [htasks, Task.workers_cons]
      rwa [Task.workers_cons] at hidle
    have hquiet := h.orderly.idle hworkers (.announcing event (ticket :: tickets))
      (htasks ▸ List.mem_cons_self)
    contradiction

theorem Regular.advances_announced (h : s.Regular)
    (htasks : s.tasks = .announcing event [] :: tasks) : s.Advances [] { s with tasks } := by
  obtain ⟨hpasses, hnone⟩ := h.passes_eq htasks
  have hannounces := h.orderly.tail htasks
  have hfront : Situation.front { s with tasks } = { s.front with passes := [] } := by
    simp [front, unannounced, htasks, hnone]
  refine ⟨?_, ⟨fun other hother ↦ hannounces other (List.mem_of_mem_tail hother),
    fun _ ↦ hannounces⟩, h.silent⟩
  rw [entries, hfront, Pass.begun_of_length_le (Nat.zero_le _)]
  exact .finish hpasses

end Pass

/-! #### Every step -/

theorem Regular.advances_register (h : s.Regular) (key : Nat) :
    s.Advances (s.view.status.event?.toList.map (.heard s.view.listeners.next))
      (s.modify fun v ↦ { v with listeners := v.listeners.register key }) := by
  have hseen : (s.view.status.event?.toList.map
      (.heard s.view.listeners.next) : List (ViewNotice α β)).filterMap (·.record?) =
        s.front.status.event?.toList.map (.heard s.front.listeners.next) := by
    simp only [front]
    cases s.view.status.event? <;> rfl
  refine ⟨?_, ⟨h.orderly.below, h.orderly.idle⟩, h.silent⟩
  rw [entries_of_passes_eq (by rfl), hseen]
  exact .register key

/-- An input is registered, and may greet the view. -/
theorem Regular.advances_connect {input : SourceId × Nat} {inputs registered : List (SourceId × Nat)}
    {tasks : List (Task α β)} {slot : Nat} {event : Event α} (h : s.Regular)
    (htasks : s.tasks = .connecting (input :: inputs) :: tasks)
    (hheard : Hearing slot event ({ s with tasks := .connecting inputs :: tasks }.modify fun v ↦
      { v with inputs := registered }) seen s') : s.Advances seen s' := by
  have hpopped := h.pop htasks rfl rfl
  have hannounces : ∀ task ∈ .connecting inputs :: tasks, task.announces = false := by
    intro task htask
    rcases List.mem_cons.mp htask with rfl | hrest
    · rfl
    · exact h.orderly.tail htasks task hrest
  have hconnecting : s.Alike ({ s with tasks := .connecting inputs :: tasks }.modify fun v ↦
      { v with inputs := registered }) :=
    hpopped.trans ⟨rfl, ⟨h.orderly.tail htasks, fun _ ↦ hannounces⟩, h.silent⟩
  refine hconnecting.trans_advances (Staffed.hearing ?_ hconnecting.orderly h.silent hheard)
  have hstaffed := h.accounted.toStaffed
  refine ⟨?_, hstaffed.dirty, hstaffed.scheduled⟩
  rw [modify, ← hstaffed.workers, htasks]
  simp [Task.workers_cons, Task.works]

theorem Regular.advances (h : s.Regular) (hstep : s.Step seen s') : s.Advances seen s' := by
  cases hstep with
  | keep hkept =>
    obtain ⟨gone, inputs, owned, live, -, rfl⟩ := hkept
    refine ⟨?_, ⟨h.orderly.below, h.orderly.idle⟩, h.silent⟩
    rw [entries_of_passes_eq (by rfl)]
    exact .unregister gone
  | register key => exact h.advances_register key
  | dispose =>
    refine ⟨?_, ⟨h.orderly.below, h.orderly.idle⟩, fun _ ↦ rfl⟩
    rw [entries_of_passes_eq (by rfl)]
    apply Front.Step.dispose
    simp [front, unannounced, modify]
  | hear slot event hheard =>
    exact h.accounted.toStaffed.hearing h.orderly h.silent hheard
  | connect input htasks registered event hheard => exact h.advances_connect htasks hheard
  | @connected inTick tasks htasks =>
    have hpopped := h.pop htasks rfl rfl
    refine (hpopped.trans (alike_requestCompose inTick ?_ hpopped.orderly h.silent)).advances rfl
    have hstaffed := h.accounted.toStaffed
    refine ⟨?_, hstaffed.dirty, hstaffed.scheduled⟩
    rw [← hstaffed.workers, htasks]
    simp [Task.workers_cons, Task.works]
  | @run jobs hjobs hlive =>
    have hrunning : s.Alike ({ s with jobs }.modify fun v ↦ { v with scheduled := false }) :=
      ⟨rfl, ⟨h.orderly.below, h.orderly.idle⟩, h.silent⟩
    refine (hrunning.trans (alike_flush ?_ hrunning.orderly h.silent)).advances rfl
    exact ⟨h.accounted.workers, h.accounted.dirty, by simp [modify]⟩
  | skip hjobs hlive =>
    exact Alike.advances ⟨rfl, ⟨h.orderly.below, h.orderly.idle⟩, h.silent⟩ rfl
  | fail htasks => exact h.advances_fail htasks
  | announce htasks => exact h.advances_announce htasks
  | announced htasks => exact h.advances_announced htasks
  | @compose tasks htasks =>
    have hpopped := h.pop htasks rfl rfl
    refine hpopped.trans_advances (advances_composeIfDue ?_ (h.orderly.tail htasks) h.silent)
    exact (h.accounted.atWork htasks rfl).workers
  | @composed tasks htasks value =>
    have hpopped := h.pop htasks rfl rfl
    have hreturned : s.Alike ({ s with tasks }.modify fun v ↦ { v with lent := false }) :=
      hpopped.trans ⟨rfl, ⟨hpopped.orderly.below, hpopped.orderly.idle⟩, h.silent⟩
    refine hreturned.trans_advances (advances_becomeReady value ?_ (h.orderly.tail htasks) h.silent
      rfl)
    exact (h.accounted.atWork htasks rfl).workers
  | @settle tasks htasks =>
    have hpopped := h.pop htasks rfl rfl
    refine (hpopped.trans (alike_settle ?_ (h.orderly.tail htasks) h.silent)).advances rfl
    exact (h.accounted.atWork htasks rfl).workers

theorem Regular.step (h : s.Regular) (hstep : s.Step seen s') : s'.Regular :=
  ⟨h.accounted.step hstep, (h.advances hstep).orderly, (h.advances hstep).silent⟩

theorem Fresh.regular (h : s.Fresh) : s.Regular := by
  have haccounted := h.accounted
  obtain ⟨label, composer, count, inputs, hview, htasks⟩ := h
  refine ⟨haccounted, ⟨?_, fun _ ↦ ?_⟩, ?_⟩
  · simp [htasks]
  · simp [htasks, Task.announces]
  · simp [hview]

theorem Fresh.front (h : s.Fresh) : s.front = {} := by
  obtain ⟨label, composer, count, inputs, hview, htasks⟩ := h
  simp [Situation.front, unannounced, hview, htasks]

end Situation

/-! ### The chronicle of a run -/

namespace Machine

variable {i : ViewId} {m m' : Machine α β} {s : Situation α β}

/-- The passes over the listeners of a view that are under way, the innermost first. -/
def passes (view : ViewId) (m : Machine α β) : List (Pass β) := Task.passes (m.tasks view)

/-- The events of the passes over the listeners of a view that a move begins. -/
def begun (view : ViewId) (move : Move α β) (m : Machine α β) : List (ViewEvent β) :=
  Pass.begun (m.passes view) ((m.move move).passes view)

/-- What a move adds to the chronicle of a view. -/
def entries (view : ViewId) (move : Move α β) (m : Machine α β) : List (Entry β) :=
  (historyOf view (m.notices move)).filterMap (·.record?) ++ (m.begun view move).map .began

/-- The emissions of a view in the course of a run, the passes that begin, and the calls of
listeners. -/
def chronicle (view : ViewId) : List (Move α β) → Machine α β → List (Entry β)
  | [], _ => []
  | move :: rest, m => m.entries view move ++ chronicle view rest (m.move move)

theorem passes_of_situation (h : m.situation i = some s) : m.passes i = s.front.passes := by
  rw [passes, tasks_of_situation h]
  rfl

theorem chronicle_append (view : ViewId) (first last : List (Move α β)) (m : Machine α β) :
    m.chronicle view (first ++ last) =
      m.chronicle view first ++ (m.run first).chronicle view last := by
  induction first generalizing m with
  | nil => rfl
  | cons move rest ih => simp only [List.cons_append, chronicle, ih, run_cons, List.append_assoc]

/-- What a chronicle says apart from passes is what the history says. -/
theorem filterMap_chronicle {γ : Type} {f : Entry β → Option γ} {g : ViewNotice α β → Option γ}
    (hfg : ∀ notice, notice.record?.bind f = g notice) (hbegan : ∀ event, f (.began event) = none)
    (view : ViewId) (moves : List (Move α β)) (m : Machine α β) :
    (m.chronicle view moves).filterMap f = (historyOf view (m.history moves)).filterMap g := by
  induction moves generalizing m with
  | nil => rfl
  | cons move rest ih =>
    have hpasses : ((m.begun view move).map Entry.began).filterMap f = [] := by
      simp [List.filterMap_map, hbegan]
    rw [chronicle, history, historyOf_append, List.filterMap_append, List.filterMap_append, ih,
      entries, List.filterMap_append, hpasses, List.append_nil, List.filterMap_filterMap]
    simp only [hfg]

theorem advances_of_takes {turn : Situation α β → List (ViewNotice α β) → Situation α β → Prop}
    {move : Move α β} (h : Takes turn i m (historyOf i (m.notices move)) (m.move move))
    (hs : m.situation i = some s) :
    ∃ s', (m.move move).situation i = some s' ∧ turn s (historyOf i (m.notices move)) s' ∧
      m.entries i move = s.entries (historyOf i (m.notices move)) s' := by
  obtain ⟨s', hs', hturn⟩ := h.of_some s hs
  refine ⟨s', hs', hturn, ?_⟩
  rw [entries, begun, passes_of_situation hs, passes_of_situation hs']
  rfl

theorem regular_of_run {moves : List (Move α β)} (hcalm : Along RaiseFree moves {})
    (h : (run moves {}).situation i = some s) : s.Regular := by
  have hfresh : ∀ s : Situation α β, s.Fresh → s.Regular := fun _ hs ↦ hs.regular
  have hstep : ∀ (s : Situation α β) (_ : List (ViewNotice α β)) seen s', s.Regular →
      s.Step seen s' → s'.Regular := fun _ _ _ _ hs hstep ↦ hs.step hstep
  exact situation_invariant hfresh hstep hcalm h

/-- What every step of a front preserves, every run in which nothing raises preserves from where it
holds. It may speak of the chronicle. -/
theorem front_run {property : Front β → List (Entry β) → Prop}
    (hstep : ∀ d past entries d', property d past → d.Step entries d' →
      property d' (past ++ entries))
    (hsound : m.Sound) {moves : List (Move α β)} (hcalm : Along RaiseFree moves m)
    (h : m.situation i = some s) (hregular : s.Regular) {past : List (Entry β)}
    (hstart : property s.front past) :
    ∃ s', (m.run moves).situation i = some s' ∧ property s'.front (past ++ m.chronicle i moves) := by
  induction moves generalizing m s past with
  | nil => exact ⟨s, h, by simpa [chronicle] using hstart⟩
  | cons move rest ih =>
    rcases steps_move (i := i) move hsound hcalm.1 with htakes | ⟨hunborn, -⟩
    · obtain ⟨next, hnext, hturn, hentries⟩ := advances_of_takes htakes h
      have hproperty := hstep _ _ _ _ hstart (hregular.advances hturn).front
      rw [← hentries] at hproperty
      have hrest := ih (hsound.move hcalm.1) hcalm.2 hnext (hregular.step hturn) hproperty
      rwa [List.append_assoc] at hrest
    · rw [situation, hunborn.1] at h
      contradiction

/-- What holds of the front of a view that nobody has heard of, and is preserved by every step of a
front, holds of every view after every run in which nothing raises. -/
theorem front_invariant {property : Front β → List (Entry β) → Prop} (hfresh : property {} [])
    (hstep : ∀ d past entries d', property d past → d.Step entries d' →
      property d' (past ++ entries))
    {moves : List (Move α β)} (hcalm : Along RaiseFree moves {})
    (h : (run moves {}).situation i = some s) : property s.front (chronicle i moves {}) := by
  suffices hall : ∀ (moves : List (Move α β)) (m : Machine α β), m.Sound → m.Unborn i →
      Along RaiseFree moves m → (m.run moves).situation i = some s →
        property s.front (m.chronicle i moves) from
    hall moves {} .start ⟨rfl, rfl⟩ hcalm h
  intro moves
  induction moves with
  | nil =>
    intro m _ hunborn _ hs
    rw [run_nil, situation, hunborn.1] at hs
    contradiction
  | cons move rest ih =>
    intro m hsound hunborn hmoves hs
    have hnone : m.passes i = [] := by rw [passes, hunborn.2]; rfl
    rcases steps_move (i := i) move hsound hmoves.1 with htakes | ⟨-, hseen, new, hnew, hfirst⟩
    · obtain ⟨hseen, hstill⟩ := htakes.of_none hunborn
      have hsame : (m.move move).passes i = [] := by rw [passes, hstill.2]; rfl
      have hentries : m.entries i move = [] := by
        rw [entries, begun, hseen, hnone, hsame, Pass.begun_self]
        rfl
      rw [chronicle, hentries, List.nil_append]
      exact ih _ (hsound.move hmoves.1) hstill hmoves.2 hs
    · have hsame : (m.move move).passes i = [] := by
        rw [passes_of_situation hnew, hfirst.front]
      have hentries : m.entries i move = [] := by
        rw [entries, begun, hseen, hnone, hsame, Pass.begun_self]
        rfl
      have hstart : property new.front [] := by rwa [hfirst.front]
      obtain ⟨s', hs', hproperty⟩ :=
        front_run hstep (hsound.move hmoves.1) hmoves.2 hnew hfirst.regular hstart
      rw [run_cons, hs'] at hs
      obtain rfl := Option.some.inj hs
      rw [chronicle, hentries]
      exact hproperty

end Machine

end LiveRecord.Flow
