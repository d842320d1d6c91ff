import LiveRecord.Proofs.Flow.Quiescence

/-!
# What a listener heard last

Failures of inputs are shown at once and announced later, values are shown and announced together.
So a listener may hear last of a failure that the view has recovered from: the one that was waiting
when the value was composed (`ViewNotice.overtaken`). At rest, that is the only way in which what a
listener heard last differs from what the view shows (`Machine.getLast?_heardBy_of_atRest`).
-/

set_option autoImplicit false

namespace LiveRecord.Flow

variable {α β : Type}

/-- The last of the failures that were still to be announced when the last value was composed. -/
def ViewNotice.overtaken (history : List (ViewNotice α β)) : Option SourceError :=
  (compositions history).getLast?.bind (·.2.getLast?)

/-- What a listener of a view with that status is told last, if a failure was overtaken. -/
def ViewStatus.lastTold (overtaken : Option SourceError) : ViewStatus β → Option (ViewEvent β)
  | pending => none
  | ready value => some (overtaken.elim (.ready value) .failed)
  | failed error => some (.failed error)

/-! ### What is still to be told -/

namespace Task

def announces : Task α β → Bool
  | announcing _ _ => true
  | _ => false

/-- What a task will still tell a listener. -/
def coming (ticket : Nat) : Task α β → List (ViewEvent β)
  | announcing event tickets => if ticket ∈ tickets then [event] else []
  | failing errors => errors.map .failed
  | _ => []

/-- Assumes: no task that goes through the news of the view, and none that announces. -/
theorem flatMap_coming {ticket : Nat} {tasks : List (Task α β)} (hworkers : workers tasks = 0)
    (hannounces : ∀ task ∈ tasks, task.announces = false) : tasks.flatMap (·.coming ticket) = [] := by
  rw [List.flatMap_eq_nil_iff]
  intro task htask
  have hworks := List.countP_eq_zero.mp hworkers task htask
  have hquiet := hannounces task htask
  cases task with
  | announcing event tickets => simp [announces] at hquiet
  | failing errors => simp [works] at hworks
  | _ => rfl

end Task

namespace Situation

variable {s s' : Situation α β} {ticket : Nat}

/-- What a listener will still be told if nothing else happens. -/
def coming (ticket : Nat) (s : Situation α β) : List (ViewEvent β) :=
  s.tasks.flatMap (·.coming ticket) ++ s.view.failures.map .failed

/-- An announcement is on top of the tasks, and on behalf of a task that goes through the news. -/
structure Orderly (s : Situation α β) : Prop where
  below : ∀ task ∈ s.tasks.tail, task.announces = false
  idle : Task.workers s.tasks = 0 → ∀ task ∈ s.tasks, task.announces = false

/-- The same is shown, and the same is still to be told. -/
structure Still (ticket : Nat) (s s' : Situation α β) : Prop where
  status : s'.view.status = s.view.status
  listeners : s'.view.listeners = s.view.listeners
  disposed : s'.view.disposed = s.view.disposed
  coming : s'.coming ticket = s.coming ticket
  orderly : s'.Orderly

theorem Orderly.push {task : Task α β} (hannounces : ∀ task ∈ s.tasks, task.announces = false)
    (htask : task.announces = false) : (s.push task).Orderly where
  below := hannounces
  idle _ other hother := by
    rcases List.mem_cons.mp hother with rfl | hrest
    · exact htask
    · exact hannounces other hrest

theorem Orderly.tail {task : Task α β} {tasks : List (Task α β)} (h : s.Orderly)
    (htasks : s.tasks = task :: tasks) : ∀ other ∈ tasks, other.announces = false := by
  have hbelow := h.below
  rwa [htasks] at hbelow

theorem still_workOff (hworkers : Task.workers s.tasks = 0)
    (hannounces : ∀ task ∈ s.tasks, task.announces = false) : s.Still ticket s.workOff := by
  have hnothing : s.tasks.flatMap (·.coming ticket) = [] := Task.flatMap_coming hworkers hannounces
  unfold workOff
  by_cases hdisposed : s.view.disposed
  · rw [if_pos hdisposed]
    exact ⟨rfl, rfl, rfl, rfl, fun task htask ↦ hannounces task (List.mem_of_mem_tail htask),
      fun _ ↦ hannounces⟩
  · rw [if_neg hdisposed]
    refine ⟨rfl, rfl, rfl, ?_, .push hannounces rfl⟩
    simp only [coming, push, modify, List.flatMap_cons, hnothing]
    simp [Task.coming]

theorem still_flush (hstaffed : s.Staffed) (horderly : s.Orderly) : s.Still ticket s.flush := by
  unfold flush
  by_cases hcomposing : s.view.composing
  · rw [if_pos hcomposing]
    exact ⟨rfl, rfl, rfl, rfl, horderly.below, horderly.idle⟩
  · rw [if_neg hcomposing]
    have hworkers : Task.workers s.tasks = 0 := by simpa [hcomposing] using hstaffed.workers
    have hwork : Still ticket (s.modify fun v ↦ { v with composing := true })
        (s.modify fun v ↦ { v with composing := true }).workOff :=
      still_workOff hworkers (horderly.idle hworkers)
    exact ⟨hwork.status, hwork.listeners, hwork.disposed, hwork.coming, hwork.orderly⟩

theorem still_requestCompose (inTick : Bool) (hstaffed : s.Staffed) (horderly : s.Orderly) :
    s.Still ticket (s.requestCompose inTick) := by
  unfold requestCompose
  split
  · exact still_flush hstaffed horderly
  · split
    · exact ⟨rfl, rfl, rfl, rfl, horderly⟩
    · exact ⟨rfl, rfl, rfl, rfl, horderly.below, horderly.idle⟩

/-- Assumes: the task that ends went through the news of the view, and nothing else does. -/
theorem still_settle (hworkers : Task.workers s.tasks = 0)
    (hannounces : ∀ task ∈ s.tasks, task.announces = false) : s.Still ticket s.settle := by
  unfold settle
  split
  · exact still_workOff hworkers hannounces
  · exact ⟨rfl, rfl, rfl, rfl, fun task htask ↦ hannounces task (List.mem_of_mem_tail htask),
      fun _ ↦ hannounces⟩

/-! ### What has been told, and what is shown -/

/-- What a listener heard and will hear ends with what it is to be told last. -/
structure Told (ticket : Nat) (s : Situation α β) (past : List (ViewNotice α β)) : Prop where
  issued : ticket < s.view.listeners.next
  active : ticket ∈ s.view.listeners.tickets → s.view.disposed = false
  orderly : s.Orderly
  last : ticket ∈ s.view.listeners.tickets →
    (ViewNotice.heardBy ticket past ++ s.coming ticket).getLast? =
      s.view.status.lastTold (ViewNotice.overtaken past)

/-- Assumes: nothing was composed, and the listener was not called. -/
theorem Told.still {past seen : List (ViewNotice α β)} (h : s.Told ticket past)
    (hstill : s.Still ticket s') (hcompositions : ViewNotice.compositions seen = [])
    (hheard : ViewNotice.heardBy ticket seen = []) : s'.Told ticket (past ++ seen) := by
  refine ⟨?_, ?_, hstill.orderly, ?_⟩
  · rw [hstill.listeners]
    exact h.issued
  · rw [hstill.listeners, hstill.disposed]
    exact h.active
  · rw [hstill.listeners, hstill.status, hstill.coming, ViewNotice.heardBy_append, hheard,
      ViewNotice.overtaken, ViewNotice.compositions_append, hcompositions, List.append_nil,
      List.append_nil]
    exact h.last

theorem Told.still_unseen {past : List (ViewNotice α β)} (h : s.Told ticket past)
    (hstill : s.Still ticket s') : s'.Told ticket past := by
  have htold : s'.Told ticket (past ++ []) := h.still hstill rfl rfl
  rwa [List.append_nil] at htold

/-- A failure is shown at once, and it is the last thing to be told. Assumes: the view is not
disposed of. -/
theorem Told.absorb_failed {past : List (ViewNotice α β)} {slot : Nat} {error : SourceError}
    (h : s.Told ticket past) (hdisposed : s.view.disposed = false) :
    (s.modify (.absorb slot (.failed error))).Told ticket
      (past ++ [.delivered slot (.failed error)]) := by
  simp only [modify, View.absorb_failed error hdisposed]
  refine ⟨h.issued, h.active, ⟨h.orderly.below, h.orderly.idle⟩, fun _ ↦ ?_⟩
  simp only [coming, List.map_append, List.map_cons, List.map_nil, ← List.append_assoc,
    List.getLast?_concat]
  rfl

theorem Told.hearing {past seen : List (ViewNotice α β)} {slot : Nat} {event : Event α}
    (h : s.Told ticket past) (hstaffed : s.Staffed) (hheard : s.Hearing slot event seen s') :
    s'.Told ticket (past ++ seen) := by
  cases hheard with
  | deaf =>
    rw [List.append_nil]
    exact h
  | heard inTick hslot hlive hlent =>
    unfold Situation.hear
    by_cases hdisposed : s.view.disposed
    · obtain ⟨slots, -, habsorbed⟩ := View.absorb_of_disposed slot event hdisposed
      rw [if_pos hdisposed, if_pos hdisposed]
      simp only [modify, habsorbed]
      exact h.still ⟨rfl, rfl, rfl, rfl, h.orderly.below, h.orderly.idle⟩ rfl rfl
    · rw [if_neg hdisposed, if_neg hdisposed]
      rw [Bool.not_eq_true] at hdisposed
      cases event with
      | pending =>
        simp only [modify, View.absorb_pending hdisposed]
        exact h.still ⟨rfl, rfl, rfl, rfl, h.orderly.below, h.orderly.idle⟩ rfl rfl
      | loaded value =>
        have habsorbed : (s.modify (.absorb slot (.loaded value))).Told ticket
            (past ++ [.delivered slot (.loaded value)]) := by
          simp only [modify, View.absorb_loaded value hdisposed]
          exact h.still ⟨rfl, rfl, rfl, rfl, h.orderly.below, h.orderly.idle⟩ rfl rfl
        have hstaffed' : (s.modify (.absorb slot (.loaded value))).Staffed := by
          simp only [modify, View.absorb_loaded value hdisposed]
          exact ⟨hstaffed.workers, hstaffed.dirty, hstaffed.scheduled⟩
        exact habsorbed.still_unseen (still_requestCompose inTick hstaffed' habsorbed.orderly)
      | failed error =>
        have habsorbed : (s.modify (.absorb slot (.failed error))).Told ticket
            (past ++ [.delivered slot (.failed error)]) := h.absorb_failed hdisposed
        have hstaffed' : (s.modify (.absorb slot (.failed error))).Staffed := by
          simp only [modify, View.absorb_failed error hdisposed]
          exact ⟨hstaffed.workers, hstaffed.dirty, hstaffed.scheduled⟩
        exact habsorbed.still_unseen (still_flush hstaffed' habsorbed.orderly)

/-- The failures that are waiting are told after the value. -/
theorem Told.becomeReady {past seen : List (ViewNotice α β)} (value : β) (h : s.Told ticket past)
    (hworkers : Task.workers s.tasks = 0) (hannounces : ∀ task ∈ s.tasks, task.announces = false)
    (hseen : ∃ earlier, ViewNotice.compositions seen = earlier ++ [(value, s.view.failures)]) :
    (s.becomeReady value).Told ticket (past ++ seen) := by
  have hnothing : s.tasks.flatMap (·.coming ticket) = [] := Task.flatMap_coming hworkers hannounces
  refine ⟨h.issued, h.active, ⟨?_, fun hnone ↦ ?_⟩, fun hactive ↦ ?_⟩
  · intro task htask
    rcases List.mem_cons.mp htask with rfl | hrest
    · rfl
    · exact hannounces task hrest
  · simp [Situation.becomeReady, push, Task.workers_cons, Task.works] at hnone
  · obtain ⟨earlier, hseen⟩ := hseen
    have hovertaken : ViewNotice.overtaken (past ++ seen) = s.view.failures.getLast? := by
      rw [ViewNotice.overtaken, ViewNotice.compositions_append, hseen, ← List.append_assoc,
        List.getLast?_concat]
      rfl
    have hcoming : (s.becomeReady value).coming ticket =
        .ready value :: s.view.failures.map .failed := by
      have hticket : ticket ∈ s.view.listeners.tickets := hactive
      simp only [coming, Situation.becomeReady, push, modify, List.flatMap_cons, hnothing]
      simp [Task.coming, hticket, View.becomeReady]
    rw [hcoming, hovertaken, List.getLast?_append, List.getLast?_cons, List.getLast?_map]
    cases s.view.failures.getLast? <;> rfl

/-- Assumes: nothing goes through the news of the view any more. -/
theorem Told.composeIfDue {past : List (ViewNotice α β)} (h : s.Told ticket past)
    (hworkers : Task.workers s.tasks = 0) (hannounces : ∀ task ∈ s.tasks, task.announces = false) :
    s.composeIfDue.Told ticket (past ++ s.composeNotices) := by
  have hfresh : (s.modify fun v ↦ { v with stale := false }).Told ticket past :=
    h.still_unseen ⟨rfl, rfl, rfl, rfl, h.orderly.below, h.orderly.idle⟩
  have hcached : (s.modify fun v ↦ { v with stale := false }).view.cachedValues? =
      s.view.cachedValues? := rfl
  have hcomposer : (s.modify fun v ↦ { v with stale := false }).view.composer =
      s.view.composer := rfl
  unfold Situation.composeIfDue composeNotices
  by_cases hdue : s.view.isDue
  · rw [if_pos hdue, if_pos hdue]
    simp only [hcached, hcomposer]
    cases s.view.cachedValues? with
    | none =>
      rw [List.append_nil]
      exact hfresh.still_unseen (still_settle hworkers hannounces)
    | some inputs =>
      cases s.view.composer with
      | direct compose => exact hfresh.becomeReady _ hworkers hannounces ⟨[], rfl⟩
      | callback key =>
        refine hfresh.still ⟨rfl, rfl, rfl, ?_, .push hannounces rfl⟩ rfl rfl
        simp only [coming, push, modify, List.flatMap_cons]
        rfl
  · rw [if_neg hdue, if_neg hdue, List.append_nil]
    exact h.still_unseen (still_settle hworkers hannounces)

/-- A task goes that has nothing to tell. -/
theorem Told.pop {past : List (ViewNotice α β)} {task : Task α β} {tasks : List (Task α β)}
    (h : s.Told ticket past) (htasks : s.tasks = task :: tasks)
    (hnothing : task.coming ticket = []) :
    Told ticket { s with tasks } past := by
  have hannounces := h.orderly.tail htasks
  refine h.still_unseen ⟨rfl, rfl, rfl, ?_, fun other hother ↦ ?_, fun _ ↦ hannounces⟩
  · rw [coming, coming, htasks, List.flatMap_cons, hnothing, List.nil_append]
  · exact hannounces other (List.mem_of_mem_tail hother)

/-- Somebody else registers. -/
theorem Told.register {past : List (ViewNotice α β)} (key : Nat) (h : s.Told ticket past) :
    (s.modify fun v ↦ { v with listeners := v.listeners.register key }).Told ticket
      (past ++ s.view.status.event?.toList.map (.heard s.view.listeners.next)) := by
  have hne : s.view.listeners.next ≠ ticket := Nat.ne_of_gt h.issued
  have hcompositions : ViewNotice.compositions (s.view.status.event?.toList.map
      (.heard s.view.listeners.next) : List (ViewNotice α β)) = [] := by
    cases s.view.status.event? <;> rfl
  have hheard : ViewNotice.heardBy ticket (s.view.status.event?.toList.map
      (.heard s.view.listeners.next) : List (ViewNotice α β)) = [] := by
    cases s.view.status.event? with
    | none => rfl
    | some event => simp [ViewNotice.heardBy, hne]
  have hsame := h.still (Still.mk rfl rfl rfl rfl h.orderly) hcompositions hheard
  have hactive : ticket ∈ (s.view.listeners.register key).tickets →
      ticket ∈ s.view.listeners.tickets := by
    rw [Registry.tickets_register, List.mem_append, List.mem_singleton]
    exact fun hmem ↦ hmem.resolve_right hne.symm
  exact ⟨Nat.lt_succ_of_lt h.issued, fun hmem ↦ h.active (hactive hmem),
    ⟨h.orderly.below, h.orderly.idle⟩, fun hmem ↦ hsame.last (hactive hmem)⟩

theorem Told.keep {past : List (ViewNotice α β)} (h : s.Told ticket past) (hkept : s.Kept s') :
    s'.Told ticket past := by
  obtain ⟨gone, inputs, owned, live, -, rfl⟩ := hkept
  have hactive : ticket ∈ (s.view.listeners.removeAll gone).tickets →
      ticket ∈ s.view.listeners.tickets := Registry.mem_tickets_of_removeAll
  exact ⟨h.issued, fun hmem ↦ h.active (hactive hmem), ⟨h.orderly.below, h.orderly.idle⟩,
    fun hmem ↦ h.last (hactive hmem)⟩

/-- Nobody is registered with a view that is disposed of. -/
theorem Told.dispose {past : List (ViewNotice α β)} (h : s.Told ticket past) :
    (s.modify fun v ↦ { v with
      inputs := [], disposed := true, listeners := v.listeners.clear, failures := [] }).Told ticket
        past := by
  refine ⟨h.issued, fun hactive ↦ ?_, ⟨h.orderly.below, h.orderly.idle⟩, fun hactive ↦ ?_⟩
  · simp [modify, Registry.clear, Registry.tickets] at hactive
  · simp [modify, Registry.clear, Registry.tickets] at hactive

/-- The next input of a view is about to be heard. -/
theorem Told.connect {past : List (ViewNotice α β)} {input : SourceId × Nat}
    {inputs : List (SourceId × Nat)} {tasks : List (Task α β)} (h : s.Told ticket past)
    (htasks : s.tasks = .connecting (input :: inputs) :: tasks)
    (registered : List (SourceId × Nat)) :
    Told ticket ({ s with tasks := .connecting inputs :: tasks }.modify fun v ↦
      { v with inputs := registered }) past := by
  refine h.still_unseen ⟨rfl, rfl, rfl, ?_, h.orderly.tail htasks, fun _ other hother ↦ ?_⟩
  · rw [coming, coming, htasks, modify, List.flatMap_cons, List.flatMap_cons]
    rfl
  · rcases List.mem_cons.mp hother with rfl | hmem
    · rfl
    · exact h.orderly.tail htasks other hmem

/-- A failure that was waiting is announced to whoever is registered now. -/
theorem Told.fail {past : List (ViewNotice α β)} {error : SourceError} {errors : List SourceError}
    {tasks : List (Task α β)} (h : s.Told ticket past)
    (htasks : s.tasks = .failing (error :: errors) :: tasks) :
    Told ticket { s with
      tasks := .announcing (.failed error) s.view.listeners.tickets :: .failing errors :: tasks }
        past := by
  have hannounces := h.orderly.tail htasks
  refine ⟨h.issued, h.active, ⟨fun other hother ↦ ?_, fun hnone ↦ ?_⟩, fun hactive ↦ ?_⟩
  · rcases List.mem_cons.mp hother with rfl | hmem
    · rfl
    · exact hannounces other hmem
  · simp [Task.workers_cons, Task.works] at hnone
  · rw [← h.last hactive, coming, coming, htasks]
    have hticket : ticket ∈ s.view.listeners.tickets := hactive
    simp only [List.flatMap_cons]
    simp [Task.coming, hticket]

/-- Whose turn it is hears the event, which it was to be told. -/
theorem Told.announce {past : List (ViewNotice α β)} {event : ViewEvent β} {other : Nat}
    {tickets : List Nat} {tasks : List (Task α β)} (h : s.Told ticket past)
    (htasks : s.tasks = .announcing event (other :: tickets) :: tasks) :
    Told ticket { s with tasks := .announcing event tickets :: tasks }
      (past ++ (s.view.listeners.find? other).toList.map fun _ ↦ .heard other event) := by
  refine ⟨h.issued, h.active, ⟨h.orderly.tail htasks, fun hnone ↦ ?_⟩, fun hactive ↦ ?_⟩
  · have hworkers : Task.workers s.tasks = 0 := by
      rw [htasks, Task.workers_cons]
      rwa [Task.workers_cons] at hnone
    have hquiet := h.orderly.idle hworkers (.announcing event (other :: tickets))
      (htasks ▸ List.mem_cons_self)
    contradiction
  · have hlast := h.last hactive
    have hovertaken : ViewNotice.overtaken (past ++
        ((s.view.listeners.find? other).toList.map fun _ ↦ .heard other event)) =
          ViewNotice.overtaken past := by
      rw [ViewNotice.overtaken, ViewNotice.compositions_append]
      cases s.view.listeners.find? other <;> simp [ViewNotice.compositions, ViewNotice.overtaken]
    rw [hovertaken, ← hlast, coming, coming, htasks, List.flatMap_cons, List.flatMap_cons,
      ViewNotice.heardBy_append]
    by_cases hticket : other = ticket
    · -- the listener hears the event now, and perhaps once more
      obtain ⟨key, hkey⟩ := Option.isSome_iff_exists.mp
        (Registry.find?_isSome_of_mem_tickets hactive)
      have hfound : s.view.listeners.find? other = some key := hticket ▸ hkey
      have hheard : ViewNotice.heardBy ticket
          ((s.view.listeners.find? other).toList.map fun _ ↦
            (.heard other event : ViewNotice α β)) = [event] := by
        rw [hfound, hticket]
        simp [ViewNotice.heardBy]
      rw [hheard]
      by_cases hagain : ticket ∈ tickets
      · simp [Task.coming, hticket, hagain, List.getLast?_append, List.getLast?_cons]
      · simp [Task.coming, hticket, hagain]
    · have hheard : ViewNotice.heardBy ticket
          ((s.view.listeners.find? other).toList.map fun _ ↦
            (.heard other event : ViewNotice α β)) = [] := by
        cases s.view.listeners.find? other <;> simp [ViewNotice.heardBy, hticket]
      rw [hheard]
      simp [Task.coming, Ne.symm hticket]

theorem Told.step {past seen : List (ViewNotice α β)} (h : s.Told ticket past)
    (haccounted : s.Accounted) (hstep : s.Step seen s') : s'.Told ticket (past ++ seen) := by
  cases hstep with
  | keep hkept =>
    rw [List.append_nil]
    exact h.keep hkept
  | register key => exact h.register key
  | dispose =>
    rw [List.append_nil]
    exact h.dispose
  | hear slot event hheard => exact h.hearing haccounted.toStaffed hheard
  | @connect input inputs tasks htasks registered event seen s' hheard =>
    have hworkers : Task.workers (.connecting inputs :: tasks) = Task.workers s.tasks := by
      rw [htasks, Task.workers_cons, Task.workers_cons]
      rfl
    exact (h.connect htasks registered).hearing
      ⟨hworkers.trans haccounted.workers, haccounted.dirty, haccounted.scheduled⟩ hheard
  | @connected inTick tasks htasks =>
    rw [List.append_nil]
    have hstaffed : Staffed { s with tasks } := by
      refine ⟨?_, haccounted.dirty, haccounted.scheduled⟩
      rw [← haccounted.workers, htasks]
      simp [Task.workers_cons, Task.works]
    have hrest := h.pop htasks rfl
    exact hrest.still_unseen (still_requestCompose inTick hstaffed hrest.orderly)
  | @run jobs hjobs hlive =>
    have hrunning : Told ticket ({ s with jobs }.modify fun v ↦ { v with scheduled := false })
        past := h.still_unseen ⟨rfl, rfl, rfl, rfl, h.orderly.below, h.orderly.idle⟩
    rw [List.append_nil]
    refine hrunning.still_unseen (still_flush ?_ hrunning.orderly)
    exact ⟨haccounted.workers, haccounted.dirty, by simp [modify]⟩
  | skip hjobs hlive =>
    exact h.still ⟨rfl, rfl, rfl, rfl, h.orderly.below, h.orderly.idle⟩ rfl rfl
  | fail htasks =>
    rw [List.append_nil]
    exact h.fail htasks
  | announce htasks => exact h.announce htasks
  | announced htasks =>
    rw [List.append_nil]
    exact h.pop htasks rfl
  | compose htasks =>
    exact (h.pop htasks rfl).composeIfDue (haccounted.atWork htasks rfl).workers
      (h.orderly.tail htasks)
  | @composed tasks htasks value =>
    have hworkers : Task.workers tasks = 0 := (haccounted.atWork htasks rfl).workers
    have hreturned : Told ticket ({ s with tasks }.modify fun v ↦ { v with lent := false }) past :=
      (h.pop htasks rfl).still_unseen ⟨rfl, rfl, rfl, rfl,
        fun other hother ↦ h.orderly.tail htasks other (List.mem_of_mem_tail hother),
        fun _ ↦ h.orderly.tail htasks⟩
    exact hreturned.becomeReady value hworkers (h.orderly.tail htasks) ⟨[], rfl⟩
  | settle htasks =>
    rw [List.append_nil]
    exact (h.pop htasks rfl).still_unseen (still_settle (haccounted.atWork htasks rfl).workers
      (h.orderly.tail htasks))

end Situation

namespace Machine

/-! ### What a listener heard last, at rest -/

/-- At rest, a listener that registered outside callbacks and is still there heard last what the
view shows, unless a failure was overtaken by the last value since it registered; then it heard last
of that failure. Assumes: a run in which nothing raises, and a view that was live and not disposed
of when the listener registered. -/
theorem getLast?_heardBy_of_atRest (before after : List (Move α β)) (view : ViewId) (key : Nat)
    (hcalm : Along RaiseFree (before ++ .request (.subscribe (.view view) key) :: after) {})
    (houtside : (run before {}).AtRest) {v₀ : View α β}
    (hview₀ : (run before {}).world.views[view]? = some v₀) (hlive : v₀.live)
    (hdisposed : v₀.disposed = false)
    (hrest : (run (before ++ .request (.subscribe (.view view) key) :: after) {}).AtRest)
    {v : View α β}
    (hview : (run (before ++ .request (.subscribe (.view view) key) :: after) {}).world.views[view]? =
      some v)
    (hactive : v₀.listeners.next ∈ v.listeners.tickets) :
    let since := historyOf view
      (history (.request (.subscribe (.view view) key) :: after) (run before {}))
    (ViewNotice.heardBy v₀.listeners.next since).getLast? =
        v.status.lastTold (ViewNotice.overtaken since) ∧
      ((ViewNotice.heardBy v₀.listeners.next since).getLast? = v.status.event? ↔
        (v.status.isReady → ViewNotice.overtaken since = none)) := by
  intro since
  obtain ⟨hbefore, hsubscribe, hafter⟩ := along_append.mp hcalm
  have hsound : (run before {}).Sound := Sound.start.run hbefore
  have hsituation₀ := houtside.situation hview₀
  obtain ⟨haccounted₀, -⟩ := accounted_and_upToDate hbefore hsituation₀
  have hfailures₀ : v₀.failures = [] := (haccounted₀.idle rfl hdisposed).2.2
  -- what there is of the view right after the listener registered
  obtain ⟨heard, hcontrol⟩ := exists_heard houtside.2
  have hregistered : ((run before {}).move (.request (.subscribe (.view view) key))).situation view =
      some (Situation.modify (fun v ↦ { v with listeners := v.listeners.register key })
        { view := v₀, tasks := [], jobs := (run before {}).jobs view }) := by
    simp only [Machine.move, submit, hcontrol]
    exact situation_subscribe key hsituation₀ hlive
  have hfirst : historyOf view ((run before {}).notices (.request (.subscribe (.view view) key))) =
      v₀.status.event?.toList.map (.heard v₀.listeners.next) := by
    simp only [notices, hcontrol]
    exact historyOf_subscribe key hsituation₀ hlive
  have htold₀ : (Situation.modify (fun v ↦ { v with listeners := v.listeners.register key })
      { view := v₀, tasks := [], jobs := (run before {}).jobs view }).Told v₀.listeners.next
        (v₀.status.event?.toList.map (.heard v₀.listeners.next)) := by
    refine ⟨Nat.lt_succ_self _, fun _ ↦ hdisposed, ⟨by simp [Situation.modify], ?_⟩, fun _ ↦ ?_⟩
    · simp [Situation.modify]
    · simp only [Situation.coming, Situation.modify]
      cases v₀.status <;>
        simp [hfailures₀, ViewStatus.event?, ViewNotice.heardBy, ViewStatus.lastTold,
          ViewNotice.overtaken, ViewNotice.compositions]
  -- the rest of the run
  have hsteps : ∀ (s : Situation α β) past seen s',
      s.Accounted ∧ s.Told v₀.listeners.next past → s.Step seen s' →
        s'.Accounted ∧ s'.Told v₀.listeners.next (past ++ seen) := fun s past seen s' hs hstep ↦
    ⟨hs.1.step hstep, hs.2.step hs.1 hstep⟩
  obtain ⟨s, hs, haccounted, htold⟩ := (hsound.move hsubscribe).situation_run hsteps hafter
    hregistered ⟨haccounted₀.step (.register key), htold₀⟩
  have hend := hrest.situation hview
  rw [run_append, run_cons, hs] at hend
  obtain rfl := Option.some.inj hend
  have hsince : v₀.status.event?.toList.map (.heard v₀.listeners.next) ++
      historyOf view (history after ((run before {}).move (.request (.subscribe (.view view) key)))) =
        since := by
    rw [← hfirst, ← historyOf_append]
    rfl
  rw [hsince] at htold
  have hfailures : v.failures = [] := (haccounted.idle rfl (htold.active hactive)).2.2
  have hlast : (ViewNotice.heardBy v₀.listeners.next since).getLast? =
      v.status.lastTold (ViewNotice.overtaken since) := by
    simpa [Situation.coming, hfailures] using htold.last hactive
  refine ⟨hlast, ?_⟩
  rw [hlast]
  cases v.status with
  | ready value => cases ViewNotice.overtaken since <;>
      simp [ViewStatus.lastTold, ViewStatus.event?, ViewStatus.isReady, ViewStatus.value?]
  | _ => simp [ViewStatus.lastTold, ViewStatus.event?, ViewStatus.isReady, ViewStatus.value?]

/-- A view over two sources, before anyone listens to it. -/
def unheard : List (Move Nat (List Nat)) :=
  Move.script 14 [.newSource "a", .newSource "b", .build [0, 1] (.direct id)]

/-- While the listener is told of a failure, the other input fails, and then both recover. -/
def recovering : List (Move Nat (List Nat)) :=
  List.replicate 14 .advance ++ Move.script 20 [.emit 1 (.loaded 10), .emit 0 (.failed ⟨"a", "early"⟩),
    .emit 1 (.failed ⟨"b", "late"⟩), .emit 0 (.loaded 2), .emit 1 (.loaded 20), .finish, .finish,
    .finish]

/-- The run of a listener that is told of a failure after the view has recovered from it. -/
def toldLate : List (Move Nat (List Nat)) :=
  unheard ++ .request (.subscribe (.view 0) 7) :: recovering

theorem heardBy_toldLate :
    Along RaiseFree toldLate {} ∧ (run unheard {}).AtRest ∧ (run toldLate {}).AtRest ∧
    (run toldLate {}).world.depth = 0 ∧
    (run toldLate {}).world.views.map (fun v ↦ (v.status, v.listeners.tickets)) =
      [(.ready [2, 20], [0])] ∧
    (ViewNotice.heardBy 0 (historyOf 0 (history toldLate {}))).getLast? =
      some (.failed ⟨"b", "late"⟩) := by
  decide +kernel

set_option maxRecDepth 2000 in
theorem getLast?_heardBy_toldLate :
    ∃ v, (run toldLate {}).world.views[0]? = some v ∧ v.status = .ready [2, 20] ∧
      (ViewNotice.heardBy 0 (historyOf 0
        (history (.request (.subscribe (.view 0) 7) :: recovering) (run unheard {})))).getLast? =
          some (.failed ⟨"b", "late"⟩) := by
  have hview₀ : (run unheard {}).world.views[0]? = some
      { label := "a+b", composer := .direct id, slots := [{}, {}], inputs := [(0, 0), (1, 0)],
        owned := true } := by cbv
  have hview : (run toldLate {}).world.views[0]? = some
      { label := "a+b", composer := .direct id, inputs := [(0, 0), (1, 0)],
        slots := [{ status := .loaded, cached := some 2 }, { status := .loaded, cached := some 20 }],
        status := .ready [2, 20], listeners := { next := 1, entries := [(0, 7)] }, stale := false,
        emissions := 1, owned := true } := by cbv
  have hlast := getLast?_heardBy_of_atRest unheard recovering 0 7 (by decide +kernel)
    (by decide +kernel) hview₀ rfl rfl (by decide +kernel) hview (by decide)
  have hovertaken : ViewNotice.overtaken (historyOf 0
      (history (.request (.subscribe (.view 0) 7) :: recovering) (run unheard {}))) =
        some ⟨"b", "late"⟩ := by decide +kernel
  refine ⟨_, hview, rfl, hlast.1.trans ?_⟩
  rw [hovertaken]
  rfl

end Machine

end LiveRecord.Flow
