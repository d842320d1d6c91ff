import Mathlib.Data.List.Permutation
import LiveRecord.Proofs.Flow.Step

/-!
# No update is lost
-/

set_option autoImplicit false

namespace LiveRecord.Flow

variable {α β : Type}

/-! ### Who sees to the news of a view -/

namespace Task

/-- The task is to go through the news of the view. -/
def works : Task α β → Bool
  | failing _ | composing | settling => true
  | announcing _ _ | connecting _ => false

/-- The task ends with a look at whether a value is due. -/
def looks : Task α β → Bool
  | failing _ | connecting _ => true
  | announcing _ _ | composing | settling => false

/-- How many of the tasks go through the news of the view. -/
def workers (tasks : List (Task α β)) : Nat := tasks.countP (·.works)

theorem workers_cons (task : Task α β) (tasks : List (Task α β)) :
    workers (task :: tasks) = workers tasks + task.works.toNat := by
  rw [workers, List.countP_cons, workers]
  cases task.works <;> rfl

end Task

namespace Situation

variable {s s' : Situation α β}

/-- Somebody will see whether a value is due. -/
def Awaited (s : Situation α β) : Prop :=
  s.view.scheduled ∨ s.view.dirty ∨ s.tasks.any (·.looks)

/-- One task goes through the news of the view while it is composing, and none otherwise. A
composition that is scheduled waits. -/
structure Staffed (s : Situation α β) : Prop where
  workers : Task.workers s.tasks = s.view.composing.toNat
  dirty : s.view.dirty → s.view.composing
  scheduled : s.view.live → s.view.scheduled → 0 < s.jobs

/-- Failures that were not announced will be, and so will a value that is due. -/
structure Accounted (s : Situation α β) : Prop extends Staffed s where
  failures : s.view.disposed = false → s.view.failures ≠ [] → s.view.dirty
  due : s.view.live → s.view.disposed = false → s.view.isDue → s.Awaited

/-- The view is composing, and what it does next is not among its tasks yet. -/
structure AtWork (s : Situation α β) : Prop where
  composing : s.view.composing
  workers : Task.workers s.tasks = 0
  scheduled : s.view.live → s.view.scheduled → 0 < s.jobs
  failures : s.view.disposed = false → s.view.failures ≠ [] → s.view.dirty

theorem accounted_workOff (hworkers : Task.workers s.tasks = 0) (hcomposing : s.view.composing)
    (hscheduled : s.view.live → s.view.scheduled → 0 < s.jobs) : s.workOff.Accounted := by
  unfold workOff
  by_cases hdisposed : s.view.disposed
  · rw [if_pos hdisposed]
    constructor
    case toStaffed => exact ⟨hworkers, by simp [modify], hscheduled⟩
    case failures => simp [modify, hdisposed]
    case due => simp [modify, hdisposed]
  · rw [if_neg hdisposed]
    constructor
    case toStaffed =>
      refine ⟨?_, fun _ ↦ hcomposing, hscheduled⟩
      simp [push, modify, Task.workers_cons, Task.works, hworkers, hcomposing]
    case failures => simp [push, modify]
    case due => exact fun _ _ _ ↦ .inr (.inr (by simp [push, Task.looks]))

theorem Staffed.flush (h : s.Staffed) : s.flush.Accounted := by
  unfold Situation.flush
  by_cases hcomposing : s.view.composing
  · rw [if_pos hcomposing]
    exact ⟨⟨h.workers, fun _ ↦ hcomposing, h.scheduled⟩, fun _ _ ↦ rfl, fun _ _ _ ↦ .inr (.inl rfl)⟩
  · rw [if_neg hcomposing]
    have hworkers : Task.workers s.tasks = 0 := by simpa [hcomposing] using h.workers
    exact accounted_workOff hworkers rfl h.scheduled

/-- Assumes: whatever is due is awaited without the task that has just ended. -/
theorem AtWork.settle (h : s.AtWork)
    (hdue : s.view.live → s.view.disposed = false → s.view.isDue → s.Awaited) :
    s.settle.Accounted := by
  unfold Situation.settle
  by_cases hdirty : s.view.dirty
  · rw [if_pos hdirty]
    exact accounted_workOff h.workers h.composing h.scheduled
  · rw [if_neg hdirty]
    refine ⟨⟨h.workers, fun hd ↦ absurd hd hdirty, h.scheduled⟩, h.failures, ?_⟩
    exact fun hlive hdisposed hisDue ↦ hdue hlive hdisposed hisDue

theorem Staffed.requestCompose (inTick : Bool) (h : s.Staffed)
    (hfailures : s.view.disposed = false → s.view.failures ≠ [] → s.view.dirty) :
    (s.requestCompose inTick).Accounted := by
  unfold Situation.requestCompose
  cases inTick with
  | false => exact h.flush
  | true =>
    by_cases hscheduled : s.view.scheduled
    · simp only [Bool.not_true, Bool.false_eq_true, if_false, if_pos hscheduled]
      exact ⟨h, hfailures, fun _ _ _ ↦ .inl hscheduled⟩
    · simp only [Bool.not_true, Bool.false_eq_true, if_false, if_neg hscheduled]
      refine ⟨⟨h.workers, h.dirty, fun _ _ ↦ Nat.succ_pos _⟩, hfailures, ?_⟩
      exact fun _ _ _ ↦ .inl rfl

theorem AtWork.becomeReady (value : β) (h : s.AtWork)
    (hdue : s.view.live → s.view.disposed = false → s.view.isDue → s.Awaited) :
    (s.becomeReady value).Accounted := by
  refine ⟨⟨?_, fun _ ↦ h.composing, h.scheduled⟩, h.failures, ?_⟩
  · have hcomposing : (s.view.becomeReady value).composing = true := h.composing
    simp [Situation.becomeReady, push, modify, Task.workers_cons, Task.works, h.workers, hcomposing]
  · intro hlive hdisposed hisDue
    rcases hdue hlive hdisposed hisDue with hscheduled | hdirty | hlooks
    · exact .inl hscheduled
    · exact .inr (.inl hdirty)
    · exact .inr (.inr (by simp [Situation.becomeReady, push, modify, hlooks]))

theorem AtWork.composeIfDue (h : s.AtWork) : s.composeIfDue.Accounted := by
  unfold Situation.composeIfDue
  by_cases hisDue : s.view.isDue
  · rw [if_pos hisDue]
    have hfresh : (s.modify fun v ↦ { v with stale := false }).AtWork :=
      ⟨h.composing, h.workers, h.scheduled, h.failures⟩
    have hdue {p q r : Prop} : p → q →
        (s.modify fun v ↦ { v with stale := false }).view.isDue → r := by
      simp [modify, View.isDue]
    dsimp only
    split
    · exact hfresh.settle hdue
    · exact hfresh.becomeReady _ hdue
    · refine ⟨⟨?_, fun _ ↦ h.composing, h.scheduled⟩, h.failures, hdue⟩
      simp [push, modify, Task.workers_cons, Task.works, h.workers, h.composing]
  · rw [if_neg hisDue]
    exact h.settle fun _ _ hdue ↦ absurd hdue hisDue

/-! #### Every step -/

theorem Accounted.keep (h : s.Accounted) (hkept : s.Kept s') : s'.Accounted := by
  obtain ⟨gone, inputs, owned, live, hlive, rfl⟩ := hkept
  exact ⟨⟨h.workers, h.dirty, fun hl ↦ h.scheduled (hlive hl)⟩, h.failures,
    fun hl ↦ h.due (hlive hl)⟩

theorem Staffed.hear_loaded (inTick : Bool) (slot : Nat) (value : α) (h : s.Staffed)
    (hfailures : s.view.disposed = false → s.view.failures ≠ [] → s.view.dirty)
    (hdisposed : s.view.disposed = false) : (s.hear inTick slot (.loaded value)).Accounted := by
  unfold Situation.hear
  rw [if_neg (by simp [hdisposed])]
  simp only [modify, View.absorb_loaded value hdisposed]
  exact Staffed.requestCompose inTick ⟨h.workers, h.dirty, h.scheduled⟩ hfailures

theorem Staffed.hear_failed (inTick : Bool) (slot : Nat) (error : SourceError) (h : s.Staffed)
    (hdisposed : s.view.disposed = false) : (s.hear inTick slot (.failed error)).Accounted := by
  unfold Situation.hear
  rw [if_neg (by simp [hdisposed])]
  simp only [modify, View.absorb_failed error hdisposed]
  exact Staffed.flush ⟨h.workers, h.dirty, h.scheduled⟩

theorem Accounted.hearing {slot : Nat} {event : Event α} {seen : List (ViewNotice α β)}
    (h : s.Accounted) (hheard : s.Hearing slot event seen s') : s'.Accounted := by
  cases hheard with
  | deaf => exact h
  | heard inTick hslot hlive hlent =>
    by_cases hdisposed : s.view.disposed
    · obtain ⟨slots, -, habsorbed⟩ := View.absorb_of_disposed slot event hdisposed
      unfold Situation.hear
      rw [if_pos hdisposed]
      simp only [modify, habsorbed]
      refine ⟨⟨h.workers, h.dirty, h.scheduled⟩, fun hd ↦ ?_, fun _ hd ↦ ?_⟩
      · exact absurd hd (by simp [hdisposed])
      · exact absurd hd (by simp [hdisposed])
    · rw [Bool.not_eq_true] at hdisposed
      cases event with
      | loaded value => exact h.hear_loaded inTick slot value h.failures hdisposed
      | failed error => exact h.hear_failed inTick slot error hdisposed
      | pending =>
        simp only [Situation.hear, if_neg (Bool.not_eq_true _ |>.mpr hdisposed), modify,
          View.absorb_pending hdisposed]
        have hpending : View.allLoaded { s.view with
            slots := s.view.slots.modify slot (·.hear .pending) } = false :=
          View.all_modify_hear hslot rfl
        refine ⟨⟨h.workers, h.dirty, h.scheduled⟩, h.failures, fun _ _ hdue ↦ ?_⟩
        rw [View.isDue, hpending, Bool.and_false] at hdue
        contradiction

/-- Assumes: a task on top that goes through the news of the view. -/
theorem Staffed.alone {task : Task α β} {tasks : List (Task α β)} (h : s.Staffed)
    (htasks : s.tasks = task :: tasks) (htask : task.works) :
    s.view.composing ∧ Task.workers tasks = 0 := by
  have hworkers := h.workers
  rw [htasks, Task.workers_cons, htask] at hworkers
  cases hcomposing : s.view.composing with
  | false => simp [hcomposing] at hworkers
  | true => exact ⟨rfl, by simpa [hcomposing] using hworkers⟩

/-- Assumes: a task on top that goes through the news of the view. -/
theorem Accounted.atWork {task : Task α β} {tasks : List (Task α β)} (h : s.Accounted)
    (htasks : s.tasks = task :: tasks) (htask : task.works) : { s with tasks }.AtWork := by
  obtain ⟨hcomposing, hworkers⟩ := h.toStaffed.alone htasks htask
  exact ⟨hcomposing, hworkers, h.scheduled, h.failures⟩

/-- Assumes: a task on top that does not look whether a value is due. -/
theorem Awaited.tail {task : Task α β} {tasks : List (Task α β)} (h : s.Awaited)
    (htasks : s.tasks = task :: tasks) (htask : task.looks = false) : { s with tasks }.Awaited := by
  rw [Awaited, htasks, List.any_cons, htask, Bool.false_or] at h
  exact h

theorem Accounted.step {seen : List (ViewNotice α β)} (h : s.Accounted) (hstep : s.Step seen s') :
    s'.Accounted := by
  cases hstep with
  | keep hkept => exact h.keep hkept
  | register key => exact ⟨⟨h.workers, h.dirty, h.scheduled⟩, h.failures, h.due⟩
  | dispose =>
    exact ⟨⟨h.workers, h.dirty, h.scheduled⟩, by simp [modify], by simp [modify]⟩
  | hear slot event hheard => exact h.hearing hheard
  | @connect input inputs tasks htasks registered event seen s' hheard =>
    have hconnecting : Accounted ({ s with tasks := .connecting inputs :: tasks }.modify fun v ↦
        { v with inputs := registered }) := by
      refine ⟨⟨?_, h.dirty, h.scheduled⟩, h.failures, fun _ _ _ ↦ .inr (.inr ?_)⟩
      · rw [modify, ← h.workers, htasks]
        simp [Task.workers_cons, Task.works]
      · simp [modify, Task.looks]
    exact hconnecting.hearing hheard
  | connected inTick htasks =>
    refine Staffed.requestCompose inTick ⟨?_, h.dirty, h.scheduled⟩ h.failures
    rw [← h.workers, htasks]
    simp [Task.workers_cons, Task.works]
  | run hjobs hlive => exact Staffed.flush ⟨h.workers, h.dirty, by simp [modify]⟩
  | skip hjobs hlive =>
    refine ⟨⟨h.workers, h.dirty, ?_⟩, h.failures, ?_⟩
    · exact fun hl ↦ absurd hl (by simp [hlive])
    · exact fun hl ↦ absurd hl (by simp [hlive])
  | fail htasks =>
    refine ⟨⟨?_, h.dirty, h.scheduled⟩, h.failures, fun _ _ _ ↦ .inr (.inr ?_)⟩
    · rw [← h.workers, htasks]
      simp [Task.workers_cons, Task.works]
    · simp [Task.looks]
  | announce htasks =>
    refine ⟨⟨?_, h.dirty, h.scheduled⟩, h.failures, fun hlive hdisposed hdue ↦ ?_⟩
    · rw [← h.workers, htasks]
      simp [Task.workers_cons, Task.works]
    · rcases (h.due hlive hdisposed hdue).tail htasks rfl with hscheduled | hdirty | hlooks
      · exact .inl hscheduled
      · exact .inr (.inl hdirty)
      · exact .inr (.inr (by simpa [Task.looks] using hlooks))
  | announced htasks =>
    refine ⟨⟨?_, h.dirty, h.scheduled⟩, h.failures, fun hlive hdisposed hdue ↦ ?_⟩
    · rw [← h.workers, htasks]
      simp [Task.workers_cons, Task.works]
    · exact (h.due hlive hdisposed hdue).tail htasks rfl
  | compose htasks => exact (h.atWork htasks rfl).composeIfDue
  | composed htasks value =>
    have hwork := h.atWork htasks rfl
    refine AtWork.becomeReady value ⟨hwork.composing, hwork.workers, hwork.scheduled,
      hwork.failures⟩ fun hlive hdisposed hdue ↦ ?_
    exact (h.due hlive hdisposed hdue).tail htasks rfl
  | settle htasks =>
    refine (h.atWork htasks rfl).settle fun hlive hdisposed hdue ↦ ?_
    exact (h.due hlive hdisposed hdue).tail htasks rfl

/-- Assumes: there is nothing to do for the view. -/
theorem Accounted.idle (h : s.Accounted) (htasks : s.tasks = [])
    (hdisposed : s.view.disposed = false) :
    s.view.composing = false ∧ s.view.dirty = false ∧ s.view.failures = [] := by
  have hcomposing : s.view.composing = false := by
    have hworkers := h.workers
    rw [htasks] at hworkers
    cases hc : s.view.composing with
    | false => rfl
    | true => simp [Task.workers, hc] at hworkers
  have hdirty : s.view.dirty = false := by
    rw [Bool.eq_false_iff]
    intro hd
    exact absurd (h.dirty hd) (by simp [hcomposing])
  refine ⟨hcomposing, hdirty, ?_⟩
  by_cases hnone : s.view.failures = []
  · exact hnone
  · exact absurd (h.failures hdisposed hnone) (by simp [hdirty])

theorem Fresh.accounted (h : s.Fresh) : s.Accounted := by
  obtain ⟨label, composer, count, inputs, hview, htasks⟩ := h
  refine ⟨⟨?_, ?_, ?_⟩, ?_, fun _ _ _ ↦ .inr (.inr ?_)⟩
  · simp [hview, htasks, Task.workers, Task.works]
  · simp [hview]
  · simp [hview]
  · simp [hview]
  · simp [htasks, Task.looks]

/-! ### What a view knows, and what it has made of that -/

end Situation

/-- How many of the tasks wait for the composing callback. -/
def Task.composers (tasks : List (Task α β)) : Nat :=
  tasks.countP fun
    | .composing => true
    | _ => false

/-- Nothing was delivered, called or composed. -/
structure ViewNotice.Quiet (seen : List (ViewNotice α β)) : Prop where
  deliveries : ∀ slot, ViewNotice.deliveries slot seen = []
  calls : ViewNotice.calls seen = []
  compositions : ViewNotice.compositions seen = []

theorem ViewNotice.Quiet.nil : Quiet ([] : List (ViewNotice α β)) := ⟨fun _ ↦ rfl, rfl, rfl⟩

theorem ViewNotice.Quiet.heard {γ : Type} (ticket : Nat) (f : γ → ViewEvent β) (found : Option γ) :
    Quiet (found.toList.map fun c ↦ (.heard ticket (f c) : ViewNotice α β)) := by
  cases found with
  | none => exact .nil
  | some c => exact ⟨fun _ ↦ rfl, rfl, rfl⟩

namespace Situation

variable {s s' : Situation α β}

/-- What the view knows, shows and has composed stays the same. -/
structure Steady (s s' : Situation α β) : Prop where
  slots : s'.view.slots = s.view.slots
  composer : s'.view.composer = s.view.composer
  status : s'.view.status = s.view.status
  stale : s'.view.stale = s.view.stale
  disposed : s'.view.disposed = s.view.disposed
  lent : s'.view.lent = s.view.lent
  composers : Task.composers s'.tasks = Task.composers s.tasks

theorem Steady.trans {s'' : Situation α β} (hfirst : s.Steady s') (hlast : s'.Steady s'') :
    s.Steady s'' where
  slots := hlast.slots.trans hfirst.slots
  composer := hlast.composer.trans hfirst.composer
  status := hlast.status.trans hfirst.status
  stale := hlast.stale.trans hfirst.stale
  disposed := hlast.disposed.trans hfirst.disposed
  lent := hlast.lent.trans hfirst.lent
  composers := hlast.composers.trans hfirst.composers

/-- The view sees to its news, now or later: only flags change, the failures that wait and the jobs,
and unless the view was disposed of, a task that goes through failures may be added. -/
def TakesOn (s s' : Situation α β) : Prop :=
  ∃ (failures : List SourceError) (scheduled composing dirty : Bool) (tasks : List (Task α β))
    (jobs : Nat),
    (tasks = s.tasks ∨ s.view.disposed = false ∧ ∃ errors, tasks = .failing errors :: s.tasks) ∧
      s' = { view := { s.view with failures, scheduled, composing, dirty }, tasks, jobs }

theorem takesOn_workOff (s : Situation α β) : s.TakesOn s.workOff := by
  unfold workOff
  by_cases hdisposed : s.view.disposed
  · rw [if_pos hdisposed]
    exact ⟨_, _, _, _, _, _, .inl rfl, rfl⟩
  · rw [if_neg hdisposed]
    rw [Bool.not_eq_true] at hdisposed
    exact ⟨_, _, _, _, _, _, .inr ⟨hdisposed, _, rfl⟩, rfl⟩

theorem takesOn_flush (s : Situation α β) : s.TakesOn s.flush := by
  unfold flush
  split
  · exact ⟨_, _, _, _, _, _, .inl rfl, rfl⟩
  · exact takesOn_workOff (s.modify fun v ↦ { v with composing := true })

theorem takesOn_settle (s : Situation α β) : s.TakesOn s.settle := by
  unfold settle
  split
  · exact takesOn_workOff s
  · exact ⟨_, _, _, _, _, _, .inl rfl, rfl⟩

theorem takesOn_requestCompose (inTick : Bool) (s : Situation α β) :
    s.TakesOn (s.requestCompose inTick) := by
  unfold requestCompose
  split
  · exact takesOn_flush s
  · split <;> exact ⟨_, _, _, _, _, _, .inl rfl, rfl⟩

theorem TakesOn.steady (h : s.TakesOn s') : s.Steady s' := by
  obtain ⟨failures, scheduled, composing, dirty, tasks, jobs, htasks, rfl⟩ := h
  refine ⟨rfl, rfl, rfl, rfl, rfl, rfl, ?_⟩
  rcases htasks with rfl | ⟨-, errors, rfl⟩ <;> rfl

/-- The last call of the composer was about the newest values, and the view shows what came of it.
-/
def ShowsLast (view : View α β) (past : List (ViewNotice α β)) : Prop :=
  ∃ inputs result, view.cachedValues? = some inputs ∧ view.status = .ready result ∧
    (ViewNotice.calls past).getLast? = some inputs ∧
    (ViewNotice.compositions past).getLast?.map (·.1) = some result ∧
    ∀ compose, view.composer = .direct compose → result = compose inputs

/-- The view knows the newest events of its inputs, and unless there is news, it shows what the
composer made of them or waits for that. -/
structure UpToDate (s : Situation α β) (past : List (ViewNotice α β)) : Prop where
  slots : s.view.disposed = false → ∀ (k : Nat) (slot : Slot α), s.view.slots[k]? = some slot →
    slot.Shows (ViewNotice.newest k past)
  answered : (ViewNotice.calls past).length =
    (ViewNotice.compositions past).length + Task.composers s.tasks
  lent : 0 < Task.composers s.tasks → s.view.lent ∧ (∃ key, s.view.composer = .callback key) ∧
    (ViewNotice.calls past).getLast? = s.view.cachedValues?
  shown : s.view.disposed = false → s.view.stale = false → s.view.allLoaded →
    0 < Task.composers s.tasks ∨ ShowsLast s.view past

theorem UpToDate.steady {past seen : List (ViewNotice α β)} (h : s.UpToDate past)
    (hsteady : s.Steady s') (hseen : ViewNotice.Quiet seen) : s'.UpToDate (past ++ seen) := by
  have hcached : s'.view.cachedValues? = s.view.cachedValues? := by
    rw [View.cachedValues?, hsteady.slots, View.cachedValues?]
  constructor
  case slots =>
    intro hdisposed k slot hslot
    rw [hsteady.disposed] at hdisposed
    rw [hsteady.slots] at hslot
    rw [ViewNotice.newest, ViewNotice.deliveries_append, hseen.deliveries, List.append_nil]
    exact h.slots hdisposed k slot hslot
  case answered =>
    rw [ViewNotice.calls_append, hseen.calls, ViewNotice.compositions_append, hseen.compositions,
      hsteady.composers, List.append_nil, List.append_nil]
    exact h.answered
  case lent =>
    rw [hsteady.composers, hsteady.lent, hsteady.composer, hcached, ViewNotice.calls_append,
      hseen.calls, List.append_nil]
    exact h.lent
  case shown =>
    rw [hsteady.disposed, hsteady.stale, View.allLoaded, hsteady.slots, hsteady.composers,
      ShowsLast, hcached, hsteady.status, hsteady.composer, ViewNotice.calls_append, hseen.calls,
      ViewNotice.compositions_append, hseen.compositions, List.append_nil, List.append_nil]
    exact h.shown

/-- Assumes: the view is not disposed of, has the input, and its values may change. -/
theorem UpToDate.absorb {past : List (ViewNotice α β)} {slot : Nat} {event : Event α}
    (h : s.UpToDate past) (hdisposed : s.view.disposed = false) (hslot : slot < s.view.slots.length)
    (hlent : (s.view.lent && event.isLoaded) = false) :
    (s.modify (.absorb slot event)).UpToDate (past ++ [.delivered slot event]) := by
  have hslots : (s.view.absorb slot event).slots = s.view.slots.modify slot (·.hear event) :=
    View.slots_absorb hdisposed
  have hcalls : ViewNotice.calls (past ++ [.delivered slot event]) = ViewNotice.calls past := by
    rw [ViewNotice.calls_append]
    exact List.append_nil _
  have hcompositions : ViewNotice.compositions (past ++ [.delivered slot event]) =
      ViewNotice.compositions past := by
    rw [ViewNotice.compositions_append]
    exact List.append_nil _
  constructor
  case slots =>
    intro _ k found hfound
    rw [ViewNotice.newest_concat_delivered]
    simp only [modify, hslots, List.getElem?_modify] at hfound
    obtain ⟨before, hbefore, rfl⟩ := Option.map_eq_some_iff.mp hfound
    by_cases hk : slot = k
    · simp only [if_pos hk]
      exact Slot.shows_hear event before
    · simp only [if_neg hk]
      exact h.slots hdisposed k before hbefore
  case answered =>
    rw [hcalls, hcompositions]
    exact h.answered
  case lent =>
    intro hcomposers
    obtain ⟨hlent', hkey, hcall⟩ := h.lent hcomposers
    have hevent : event.isLoaded = false := by simpa [hlent'] using hlent
    have hcached : (s.view.absorb slot event).cachedValues? = s.view.cachedValues? := by
      refine View.cachedValues?_congr ?_
      rw [hslots, View.map_cached_modify_hear hevent]
    simp only [modify, View.lent_absorb, View.composer_absorb, hcalls, hcached]
    exact ⟨hlent', hkey, hcall⟩
  case shown =>
    intro _ hstale hloaded
    cases event with
    | loaded value =>
      simp only [modify, View.absorb_loaded value hdisposed] at hstale
      contradiction
    | pending =>
      rw [modify, View.allLoaded, hslots, View.all_modify_hear hslot rfl] at hloaded
      contradiction
    | failed error =>
      rw [modify, View.allLoaded, hslots, View.all_modify_hear hslot rfl] at hloaded
      contradiction

theorem UpToDate.hearing {past seen : List (ViewNotice α β)} {slot : Nat} {event : Event α}
    (h : s.UpToDate past) (hheard : s.Hearing slot event seen s') : s'.UpToDate (past ++ seen) := by
  cases hheard with
  | deaf => simpa using h
  | heard inTick hslot hlive hlent =>
    unfold Situation.hear
    by_cases hdisposed : s.view.disposed
    · obtain ⟨slots, hslots, habsorbed⟩ := View.absorb_of_disposed slot event hdisposed
      rw [if_pos hdisposed, if_pos hdisposed, List.append_nil]
      simp only [modify, habsorbed]
      refine ⟨fun hd ↦ ?_, h.answered, fun hcomposers ↦ ?_, fun hd ↦ ?_⟩
      · exact absurd hd (by simp [hdisposed])
      · obtain ⟨hlent', hkey, hcall⟩ := h.lent hcomposers
        refine ⟨hlent', hkey, ?_⟩
        rw [hslots (by simpa [hlent'] using hlent)]
        exact hcall
      · exact absurd hd (by simp [hdisposed])
    · rw [if_neg hdisposed, if_neg hdisposed]
      rw [Bool.not_eq_true] at hdisposed
      have hheard := h.absorb hdisposed hslot hlent
      cases event with
      | pending => exact hheard
      | loaded value => simpa using hheard.steady (takesOn_requestCompose inTick _).steady .nil
      | failed error => simpa using hheard.steady (takesOn_flush _).steady .nil

/-- Assumes: the composer was called last with the values that the view has, and nothing came of
that yet. -/
theorem upToDate_becomeReady {past : List (ViewNotice α β)} {value : β} {inputs : List α}
    (waiting : List SourceError)
    (hslots : s.view.disposed = false → ∀ (k : Nat) (slot : Slot α), s.view.slots[k]? = some slot →
      slot.Shows (ViewNotice.newest k past))
    (hcomposers : Task.composers s.tasks = 0)
    (hanswered : (ViewNotice.calls past).length = (ViewNotice.compositions past).length + 1)
    (hcall : (ViewNotice.calls past).getLast? = some inputs)
    (hcached : s.view.cachedValues? = some inputs)
    (hdirect : ∀ compose, s.view.composer = .direct compose → value = compose inputs) :
    (s.becomeReady value).UpToDate (past ++ [.composed value waiting]) := by
  have hcalls : ViewNotice.calls (past ++ [.composed value waiting]) = ViewNotice.calls past := by
    rw [ViewNotice.calls_append]
    exact List.append_nil _
  have hcompositions : ViewNotice.compositions (past ++ [.composed value waiting]) =
      ViewNotice.compositions past ++ [(value, waiting)] := ViewNotice.compositions_append
  have hnone : Task.composers (s.becomeReady value).tasks = 0 := hcomposers
  constructor
  case slots =>
    intro hdisposed k slot hslot
    rw [ViewNotice.newest, ViewNotice.deliveries_append]
    exact (List.append_nil (ViewNotice.deliveries k past)).symm ▸ hslots hdisposed k slot hslot
  case answered => rw [hcalls, hcompositions, hnone, List.length_append, hanswered]; rfl
  case lent => exact fun hpos ↦ absurd hnone (Nat.ne_of_gt hpos)
  case shown =>
    refine fun _ _ _ ↦ .inr ⟨inputs, value, hcached, rfl, ?_, ?_, hdirect⟩
    · rw [hcalls, hcall]
    · rw [hcompositions, List.getLast?_concat]
      rfl

/-- Assumes: no composing callback is at work. -/
theorem UpToDate.composeIfDue {past : List (ViewNotice α β)} (h : s.UpToDate past)
    (hcomposers : Task.composers s.tasks = 0) :
    s.composeIfDue.UpToDate (past ++ s.composeNotices) := by
  unfold Situation.composeIfDue composeNotices
  by_cases hdue : s.view.isDue
  · have hloaded : s.view.allLoaded := by
      rw [View.isDue, Bool.and_eq_true] at hdue
      exact hdue.2
    have hcached : (s.modify fun v ↦ { v with stale := false }).view.cachedValues? =
        s.view.cachedValues? := rfl
    rw [if_pos hdue, if_pos hdue]
    simp only [hcached]
    cases hinputs : s.view.cachedValues? with
    | none =>
      have hfresh : (s.modify fun v ↦ { v with stale := false }).UpToDate past := by
        refine ⟨h.slots, h.answered, h.lent, fun hdisposed _ _ ↦ ?_⟩
        obtain ⟨values, hvalues, -⟩ := View.exists_values_of_shows (h.slots hdisposed) hloaded
        rw [hinputs] at hvalues
        contradiction
      simpa using hfresh.steady (takesOn_settle _).steady .nil
    | some inputs =>
      have hcalls : ViewNotice.calls (past ++ [.called inputs]) =
          ViewNotice.calls past ++ [inputs] := ViewNotice.calls_append
      have hcompositions : ViewNotice.compositions (past ++ [.called inputs]) =
          ViewNotice.compositions past := by
        rw [ViewNotice.compositions_append]
        exact List.append_nil _
      have hslots : s.view.disposed = false → ∀ (k : Nat) (slot : Slot α),
          s.view.slots[k]? = some slot →
            slot.Shows (ViewNotice.newest k (past ++ [.called inputs])) := by
        intro hdisposed k slot hslot
        rw [ViewNotice.newest, ViewNotice.deliveries_append]
        exact (List.append_nil (ViewNotice.deliveries k past)).symm ▸ h.slots hdisposed k slot hslot
      have hanswered : (ViewNotice.calls (past ++ [.called inputs])).length =
          (ViewNotice.compositions (past ++ [.called inputs])).length + 1 := by
        rw [hcalls, hcompositions, List.length_append, h.answered, hcomposers]
        rfl
      have hlast : (ViewNotice.calls (past ++ [.called inputs])).getLast? = some inputs := by
        rw [hcalls, List.getLast?_concat]
      have hcomposer : (s.modify fun v ↦ { v with stale := false }).view.composer =
          s.view.composer := rfl
      simp only [hcomposer]
      cases hc : s.view.composer with
      | direct compose =>
        have hready : ((s.modify fun v ↦ { v with stale := false }).becomeReady
            (compose inputs)).UpToDate
              (past ++ [.called inputs] ++ [.composed (compose inputs) s.view.failures]) := by
          refine upToDate_becomeReady _ hslots hcomposers hanswered hlast hinputs ?_
          intro other hother
          rw [hcomposer, hc] at hother
          rw [Composer.direct.inj hother]
        simpa using hready
      | callback key =>
        have hone : Task.composers (.composing :: s.tasks) = 1 := by
          rw [Task.composers, List.countP_cons]
          exact congrArg (· + 1) hcomposers
        refine ⟨hslots, ?_, fun _ ↦ ⟨rfl, ⟨key, hc⟩, hlast.trans hinputs.symm⟩, fun _ _ _ ↦ .inl ?_⟩
        · exact hanswered.trans (congrArg (_ + ·) hone.symm)
        · exact hone ▸ Nat.one_pos
  · rw [if_neg hdue, if_neg hdue]
    exact h.steady (takesOn_settle s).steady .nil

theorem composers_of_workers {tasks : List (Task α β)} (h : Task.workers tasks = 0) :
    Task.composers tasks = 0 := by
  rw [Task.composers, List.countP_eq_zero]
  intro task htask hcomposing
  have hworks := List.countP_eq_zero.mp h task htask
  cases task with
  | composing => exact hworks rfl
  | _ => simp at hcomposing

theorem UpToDate.step {past seen : List (ViewNotice α β)} (h : s.UpToDate past)
    (hstaffed : s.Staffed) (hstep : s.Step seen s') : s'.UpToDate (past ++ seen) := by
  have hpop {task : Task α β} {tasks : List (Task α β)} (htasks : s.tasks = task :: tasks)
      (htask : task ≠ .composing) : s.Steady { s with tasks } := by
    refine ⟨rfl, rfl, rfl, rfl, rfl, rfl, ?_⟩
    rw [htasks]
    cases task with
    | composing => contradiction
    | _ => rfl
  cases hstep with
  | keep hkept =>
    obtain ⟨gone, inputs, owned, live, -, rfl⟩ := hkept
    exact h.steady ⟨rfl, rfl, rfl, rfl, rfl, rfl, rfl⟩ .nil
  | register key => exact h.steady ⟨rfl, rfl, rfl, rfl, rfl, rfl, rfl⟩ (.heard _ id _)
  | dispose =>
    rw [List.append_nil]
    exact ⟨by simp [modify], h.answered, h.lent, by simp [modify]⟩
  | hear slot event hheard => exact h.hearing hheard
  | connect input htasks registered event hheard =>
    refine UpToDate.hearing ?_ hheard
    have hrest := h.steady (hpop htasks (by simp)) .nil
    rw [List.append_nil] at hrest
    exact ⟨hrest.slots, hrest.answered, hrest.lent, hrest.shown⟩
  | connected inTick htasks =>
    exact h.steady ((hpop htasks (by simp)).trans (takesOn_requestCompose inTick _).steady) .nil
  | run hjobs hlive =>
    refine h.steady (Steady.trans ?_ (takesOn_flush _).steady) .nil
    exact ⟨rfl, rfl, rfl, rfl, rfl, rfl, rfl⟩
  | skip hjobs hlive => exact h.steady ⟨rfl, rfl, rfl, rfl, rfl, rfl, rfl⟩ .nil
  | fail htasks =>
    exact h.steady ((hpop htasks (by simp)).trans ⟨rfl, rfl, rfl, rfl, rfl, rfl, rfl⟩) .nil
  | announce htasks =>
    exact h.steady ((hpop htasks (by simp)).trans ⟨rfl, rfl, rfl, rfl, rfl, rfl, rfl⟩)
      (.heard _ (fun _ ↦ _) _)
  | announced htasks => exact h.steady (hpop htasks (by simp)) .nil
  | @compose tasks htasks =>
    have hrest := h.steady (hpop htasks (by simp)) .nil
    rw [List.append_nil] at hrest
    exact hrest.composeIfDue (composers_of_workers (hstaffed.alone htasks rfl).2)
  | @composed tasks htasks value =>
    have hnone : Task.composers tasks = 0 :=
      composers_of_workers (hstaffed.alone htasks rfl).2
    have hone : Task.composers s.tasks = 1 := by
      rw [htasks, Task.composers, List.countP_cons]
      exact congrArg (· + 1) hnone
    obtain ⟨-, ⟨key, hkey⟩, hcall⟩ := h.lent (hone ▸ Nat.one_pos)
    have hanswered := h.answered
    rw [hone] at hanswered
    cases hinputs : s.view.cachedValues? with
    | none =>
      rw [hinputs, List.getLast?_eq_none_iff] at hcall
      rw [hcall] at hanswered
      contradiction
    | some inputs =>
      refine upToDate_becomeReady s.view.failures h.slots hnone hanswered
        (hcall.trans hinputs) hinputs fun compose hcompose ↦ ?_
      rw [modify, hkey] at hcompose
      contradiction
  | settle htasks => exact h.steady ((hpop htasks (by simp)).trans (takesOn_settle _).steady) .nil

/-- When there is nothing to do for a view whose newest events are loaded ones, it shows what its
composer made of these values. -/
theorem UpToDate.shownLast {past : List (ViewNotice α β)} {values : List α} (h : s.UpToDate past)
    (haccounted : s.Accounted) (htasks : s.tasks = []) (hjobs : s.jobs = 0) (hlive : s.view.live)
    (hdisposed : s.view.disposed = false)
    (hvalues : (List.range s.view.slots.length).map (ViewNotice.newest · past) =
      values.map .loaded) :
    s.view.cachedValues? = some values ∧ s.view.stale = false ∧ ShowsLast s.view past := by
  obtain ⟨hcomposing, hdirty, -⟩ := haccounted.idle htasks hdisposed
  obtain ⟨hloaded, hcached⟩ := View.allLoaded_and_cachedValues?_of_slots
    (View.slots_of_shows (h.slots hdisposed) hvalues)
  have hstale : s.view.stale = false := by
    rw [Bool.eq_false_iff]
    intro hs
    have hdue : s.view.isDue = true := by rw [View.isDue, hs, hloaded]; rfl
    rcases haccounted.due hlive hdisposed hdue with hwaits | hmore | hlooks
    · exact absurd (haccounted.scheduled hlive hwaits) (by simp [hjobs])
    · rw [hdirty] at hmore
      contradiction
    · exact absurd hlooks (by simp [htasks])
  refine ⟨hcached, hstale, (h.shown hdisposed hstale hloaded).resolve_left ?_⟩
  simp [htasks, Task.composers]

theorem Fresh.upToDate (h : s.Fresh) : s.UpToDate [] := by
  obtain ⟨label, composer, count, inputs, hview, htasks⟩ := h
  refine ⟨fun _ k slot hslot ↦ ?_, ?_, ?_, ?_⟩
  · rw [hview] at hslot
    rw [List.eq_of_mem_replicate (List.mem_of_getElem? hslot)]
    rfl
  · simp [htasks, ViewNotice.calls, ViewNotice.compositions, Task.composers]
  · simp [htasks, Task.composers]
  · simp [hview]

end Situation

namespace Machine

/-- What holds of a view that there is after a run in which nothing raises. -/
theorem accounted_and_upToDate {moves : List (Move α β)} (hcalm : Along RaiseFree moves {})
    {view : ViewId} {s : Situation α β} (h : (run moves {}).situation view = some s) :
    s.Accounted ∧ s.UpToDate (historyOf view (history moves {})) := by
  have hfresh : ∀ s : Situation α β, s.Fresh → s.Accounted ∧ s.UpToDate [] := fun s hs ↦
    ⟨hs.accounted, hs.upToDate⟩
  have hstep : ∀ (s : Situation α β) past seen s', s.Accounted ∧ s.UpToDate past →
      s.Step seen s' → s'.Accounted ∧ s'.UpToDate (past ++ seen) := fun s past seen s' hs hstep ↦
    ⟨hs.1.step hstep, hs.2.step hs.1.toStaffed hstep⟩
  exact situation_invariant hfresh hstep hcalm h

/-- At rest and outside ticks, nothing is left to do for a view, and if the newest event of every
input is a loaded one, the view shows what its composer made of these values. Assumes: a run in
which nothing raises, and a view that is live and not disposed of. -/
theorem settled_of_atRest (moves : List (Move α β)) (hcalm : Along RaiseFree moves {})
    (hrest : (run moves {}).AtRest) (hdepth : (run moves {}).world.depth = 0) {view : ViewId}
    {v : View α β} (hview : (run moves {}).world.views[view]? = some v) (hlive : v.live)
    (hdisposed : v.disposed = false) :
    v.failures = [] ∧ v.scheduled = false ∧ v.composing = false ∧ v.dirty = false ∧
    ∀ values : List α,
      (List.range v.slots.length).map (ViewNotice.newest · (historyOf view (history moves {}))) =
        values.map .loaded →
      v.stale = false ∧
      ∃ result, v.status = .ready result ∧
        (∀ compose, v.composer = .direct compose → result = compose values) ∧
        (ViewNotice.calls (historyOf view (history moves {}))).getLast? = some values ∧
        (ViewNotice.compositions (historyOf view (history moves {}))).getLast?.map (·.1) =
          some result ∧
        (ViewNotice.calls (historyOf view (history moves {}))).length =
          (ViewNotice.compositions (historyOf view (history moves {}))).length := by
  have hjobs : (run moves {}).jobs view = 0 := by
    simp [Machine.jobs, hrest.1, putsOffInTicks_run moves hdepth]
  have hsituation := hrest.situation hview
  rw [hjobs] at hsituation
  obtain ⟨haccounted, hupToDate⟩ := accounted_and_upToDate hcalm hsituation
  obtain ⟨hcomposing, hdirty, hfailures⟩ := haccounted.idle rfl hdisposed
  have hscheduled : v.scheduled = false := by
    rw [Bool.eq_false_iff]
    intro hs
    exact absurd (haccounted.scheduled hlive hs) (Nat.lt_irrefl 0)
  refine ⟨hfailures, hscheduled, hcomposing, hdirty, fun values hvalues ↦ ?_⟩
  obtain ⟨hcached, hstale, inputs, result, hinputs, hstatus, hcall, hcomposition, hdirect⟩ :=
    hupToDate.shownLast haccounted rfl rfl hlive hdisposed hvalues
  obtain rfl := Option.some.inj (hcached.symm.trans hinputs)
  exact ⟨hstale, result, hstatus, hdirect, hcall, hcomposition, by simpa [Task.composers] using
    hupToDate.answered⟩

/-- The listener of a view over two sources emits again when it hears of the first value. -/
def emittingAgain : List (Move Nat Nat) :=
  Move.script 14 [.newSource "a", .newSource "b", .build [0, 1] (.direct List.sum),
    .subscribe (.view 0) 7, .emit 0 (.loaded 1), .emit 1 (.loaded 10), .emit 0 (.loaded 2), .finish,
    .finish]

theorem settled_emittingAgain :
    ∃ v, (run emittingAgain {}).world.views[0]? = some v ∧ v.stale = false ∧
      v.status = .ready ([2, 10].sum) := by
  have hview : (run emittingAgain {}).world.views[0]? = some
      { label := "a+b", composer := .direct List.sum, inputs := [(0, 0), (1, 0)],
        slots := [{ status := .loaded, cached := some 2 }, { status := .loaded, cached := some 10 }],
        status := .ready 12, listeners := { next := 1, entries := [(0, 7)] }, stale := false,
        emissions := 2, owned := true } := by cbv
  obtain ⟨-, -, -, -, hvalues⟩ := settled_of_atRest emittingAgain (by decide +kernel)
    (by decide +kernel) (by decide +kernel) hview rfl rfl
  obtain ⟨hstale, result, hstatus, hdirect, -⟩ := hvalues [2, 10] (by decide +kernel)
  exact ⟨_, hview, hstale, hdirect List.sum rfl ▸ hstatus⟩

end Machine

end LiveRecord.Flow
