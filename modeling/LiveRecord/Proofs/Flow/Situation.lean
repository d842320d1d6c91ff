import Mathlib.Algebra.Ring.Nat
import LiveRecord.Proofs.Flow.Advance

/-!
# What a run does to one view

The situation of a view is the view itself, the frames of the stack that are at work for it, and the
number of compositions that wait for it.
-/

set_option autoImplicit false

namespace LiveRecord.Flow

variable {α β : Type}

/-- What the core still has to do for one view. -/
inductive Task (α β : Type)
  | announcing (event : ViewEvent β) (tickets : List Nat)
  | failing (errors : List SourceError)
  | composing
  | settling
  | connecting (inputs : List (SourceId × Nat))

/-- The task of a frame, if it is at work for the view. -/
def Frame.task? (view : ViewId) : Frame α β → Option (Task α β)
  | announcing v event tickets => if v = view then some (.announcing event tickets) else none
  | failing v errors => if v = view then some (.failing errors) else none
  | composing v => if v = view then some .composing else none
  | settling v => if v = view then some .settling else none
  | connecting v inputs => if v = view then some (.connecting inputs) else none
  | _ => none

/-- How many compositions of the view a frame will start. -/
def Frame.jobs (view : ViewId) : Frame α β → Nat
  | draining views _ => views.count view
  | _ => 0

/-- One view as a run sees it. -/
structure Situation (α β : Type) where
  view : View α β
  /-- What the core still has to do for the view, the innermost operation first. -/
  tasks : List (Task α β)
  /-- How many compositions wait for the view. -/
  jobs : Nat

namespace Situation

/-! ### What the operations of the core do to the view they are for -/

def modify (f : View α β → View α β) (s : Situation α β) : Situation α β :=
  { s with view := f s.view }

def push (task : Task α β) (s : Situation α β) : Situation α β :=
  { s with tasks := task :: s.tasks }

def workOff (s : Situation α β) : Situation α β :=
  if s.view.disposed then s.modify fun v ↦ { v with dirty := false, composing := false }
  else (s.modify fun v ↦ { v with dirty := false, failures := [] }).push (.failing s.view.failures)

def flush (s : Situation α β) : Situation α β :=
  if s.view.composing then s.modify fun v ↦ { v with dirty := true }
  else (s.modify fun v ↦ { v with composing := true }).workOff

def settle (s : Situation α β) : Situation α β :=
  if s.view.dirty then s.workOff else s.modify fun v ↦ { v with composing := false }

def schedule (s : Situation α β) : Situation α β :=
  { s.modify fun v ↦ { v with scheduled := true } with jobs := s.jobs + 1 }

def requestCompose (inTick : Bool) (s : Situation α β) : Situation α β :=
  if !inTick then s.flush else if s.view.scheduled then s else s.schedule

def becomeReady (value : β) (s : Situation α β) : Situation α β :=
  ((s.modify (.becomeReady value)).push .settling).push
    (.announcing (.ready value) s.view.listeners.tickets)

def composeIfDue (s : Situation α β) : Situation α β :=
  if s.view.isDue then
    let s := s.modify fun v ↦ { v with stale := false }
    match s.view.cachedValues?, s.view.composer with
    | none, _ => s.settle
    | some inputs, .direct compose => s.becomeReady (compose inputs)
    | some _, .callback _ => (s.modify fun v ↦ { v with lent := true }).push .composing
  else s.settle

def hear (inTick : Bool) (slot : Nat) (event : Event α) (s : Situation α β) : Situation α β :=
  let heard := s.modify (.absorb slot event)
  if s.view.disposed then heard
  else
    match event with
    | .pending => heard
    | .loaded _ => heard.requestCompose inTick
    | .failed _ => heard.flush

/-- What is seen of a view when an event comes in. -/
def hearNotices (slot : Nat) (event : Event α) (s : Situation α β) : List (ViewNotice α β) :=
  if !s.view.live || s.view.disposed || s.view.lent && event.isLoaded then []
  else [.delivered slot event]

/-- What is seen of a view when its failures have been announced. -/
def composeNotices (s : Situation α β) : List (ViewNotice α β) :=
  if s.view.isDue then
    match s.view.cachedValues?, s.view.composer with
    | none, _ => []
    | some inputs, .direct compose =>
      [.called inputs, .composed (compose inputs) s.view.failures]
    | some inputs, .callback _ => [.called inputs]
  else []

end Situation

namespace Machine

def tasks (view : ViewId) (m : Machine α β) : List (Task α β) := m.stack.filterMap (·.task? view)

/-- How many compositions wait for a view: at the end of the outermost tick, and in batches that
are at work. -/
def jobs (view : ViewId) (m : Machine α β) : Nat :=
  m.world.deferred.count view + (m.stack.map (·.jobs view)).sum

/-- The view, if there is one of that id, with its tasks and jobs. -/
def outlook (view : ViewId) (m : Machine α β) : Option (View α β) × List (Task α β) × Nat :=
  (m.world.views[view]?, m.tasks view, m.jobs view)

def situation (view : ViewId) (m : Machine α β) : Option (Situation α β) :=
  m.world.views[view]?.map fun v ↦ { view := v, tasks := m.tasks view, jobs := m.jobs view }

section Outlook

variable {i j : ViewId} {m m' : Machine α β} {s : Situation α β}

theorem situation_eq_some_iff :
    m.situation i = some s ↔ m.outlook i = (some s.view, s.tasks, s.jobs) := by
  simp only [situation, outlook, Option.map_eq_some_iff, Prod.mk.injEq]
  constructor
  · rintro ⟨v, hv, rfl⟩
    exact ⟨hv, rfl, rfl⟩
  · rintro ⟨hv, htasks, hjobs⟩
    exact ⟨s.view, hv, by rw [htasks, hjobs]⟩

theorem view_of_situation (h : m.situation i = some s) : m.world.views[i]? = some s.view :=
  congrArg Prod.fst (situation_eq_some_iff.mp h)

theorem situation_of_view {v : View α β} (h : m.world.views[i]? = some v) :
    m.situation i = some { view := v, tasks := m.tasks i, jobs := m.jobs i } := by
  rw [situation, h]
  rfl

theorem tasks_of_situation (h : m.situation i = some s) : m.tasks i = s.tasks :=
  congrArg (·.2.1) (situation_eq_some_iff.mp h)

theorem jobs_of_situation (h : m.situation i = some s) : m.jobs i = s.jobs :=
  congrArg (·.2.2) (situation_eq_some_iff.mp h)

theorem situation_congr (h : m'.outlook i = m.outlook i) : m'.situation i = m.situation i := by
  simp only [outlook, Prod.mk.injEq] at h
  simp only [situation, h]

/-! ### Changes that concern no view, or another one -/

@[simp] theorem outlook_returning (answer : Answer α β) :
    (m.returning answer).outlook i = m.outlook i := rfl

@[simp] theorem outlook_tell (heard : Heard α β) : (m.tell heard).outlook i = m.outlook i := rfl

@[simp] theorem outlook_answer (answer : Answer α β) :
    (m.answer answer).outlook i = m.outlook i := rfl

@[simp] theorem outlook_unwind (message : String) :
    (m.unwind message).outlook i = m.outlook i := rfl

/-- Assumes: a change of the world that leaves the views and the deferred views alone. -/
theorem outlook_withWorld {f : World α β → World α β} (hviews : (f m.world).views = m.world.views)
    (hdeferred : (f m.world).deferred = m.world.deferred) :
    (m.withWorld f).outlook i = m.outlook i := by
  simp only [outlook, tasks, jobs, withWorld, hviews, hdeferred]

/-- Assumes: the frame is not at work for the view and starts no compositions of it. -/
theorem outlook_push {frame : Frame α β} (htask : frame.task? i = none)
    (hjobs : frame.jobs i = 0) : (m.push frame).outlook i = m.outlook i := by
  simp [outlook, tasks, jobs, push, htask, hjobs]

/-- Assumes: the frame on top is not at work for the view and starts no compositions of it. -/
theorem outlook_pop {frame : Frame α β} {stack : List (Frame α β)}
    (hstack : m.stack = frame :: stack) (htask : frame.task? i = none) (hjobs : frame.jobs i = 0) :
    { m with stack }.outlook i = m.outlook i := by
  simp [outlook, tasks, jobs, hstack, htask, hjobs]

@[simp] theorem outlook_call (call : Call α β) (turn : Option (Target × Nat)) :
    (m.call call turn).outlook i = m.outlook i :=
  (outlook_push rfl rfl : (m.push (.calling call turn)).outlook i = m.outlook i)

theorem outlook_modifyView (f : View α β → View α β) (hne : j ≠ i) :
    (m.withWorld (.modifyView j f)).outlook i = m.outlook i := by
  simp [outlook, tasks, jobs, withWorld, World.modifyView, hne]

theorem outlook_workOff (hne : j ≠ i) : (m.workOff j).outlook i = m.outlook i := by
  unfold workOff
  split
  · rfl
  · split
    · exact outlook_modifyView _ hne
    · rw [outlook_returning, outlook_push (by simp [Frame.task?, hne]) rfl,
        outlook_modifyView _ hne]

theorem outlook_flush (hne : j ≠ i) : (m.flush j).outlook i = m.outlook i := by
  unfold flush
  split
  · rfl
  · split
    · exact outlook_modifyView _ hne
    · rw [outlook_workOff hne, outlook_modifyView _ hne]

theorem outlook_settle (hne : j ≠ i) : (m.settle j).outlook i = m.outlook i := by
  unfold settle
  split
  · rfl
  · split
    · exact outlook_workOff hne
    · exact outlook_modifyView _ hne

theorem outlook_schedule (hne : j ≠ i) :
    (m.withWorld (.schedule j)).outlook i = m.outlook i := by
  simp [outlook, tasks, jobs, withWorld, World.schedule, World.modifyView, List.count_append, hne]

theorem outlook_requestCompose (hne : j ≠ i) : (m.requestCompose j).outlook i = m.outlook i := by
  unfold requestCompose
  split
  · rfl
  · split
    · exact outlook_flush hne
    · split
      · rfl
      · exact outlook_schedule hne

theorem outlook_becomeReady (value : β) (hne : j ≠ i) :
    (m.becomeReady j value).outlook i = m.outlook i := by
  simp only [becomeReady, outlook_returning]
  rw [outlook_push (by simp [Frame.task?, hne]) rfl,
    outlook_push (by simp [Frame.task?, hne]) rfl, outlook_modifyView _ hne]

theorem outlook_composeIfDue (hne : j ≠ i) : (m.composeIfDue j).outlook i = m.outlook i := by
  unfold composeIfDue
  split
  · rfl
  · split
    · split
      · rw [outlook_settle hne, outlook_modifyView _ hne]
      · rw [outlook_becomeReady _ hne, outlook_modifyView _ hne]
      · rw [outlook_call, outlook_push (by simp [Frame.task?, hne]) rfl,
          outlook_modifyView _ hne, outlook_modifyView _ hne]
    · exact outlook_settle hne

theorem outlook_hear (slot : Nat) (event : Event α) (hne : j ≠ i) :
    (m.hear j slot event).outlook i = m.outlook i := by
  have hheld : (m.push (.holding j)).outlook i = m.outlook i := outlook_push rfl rfl
  have habsorbed : ((m.push (.holding j)).withWorld (.modifyView j (.absorb slot event))).outlook i =
      m.outlook i := (outlook_modifyView _ hne).trans hheld
  have hhears := m.hears j slot event
  generalize m.hear j slot event = m' at hhears ⊢
  cases hhears with
  | deaf => rfl
  | lent => exact hheld
  | quiet => exact habsorbed
  | loaded => exact (outlook_requestCompose hne).trans habsorbed
  | failed => exact (outlook_flush hne).trans habsorbed

/-! ### The operations of the core on the view itself -/

@[simp] theorem situation_returning (answer : Answer α β) :
    (m.returning answer).situation i = m.situation i := rfl

/-- Assumes: the frame starts no compositions of the view. -/
theorem situation_push {frame : Frame α β} {task : Task α β} (h : m.situation i = some s)
    (htask : frame.task? i = some task) (hjobs : frame.jobs i = 0) :
    (m.push frame).situation i = some (s.push task) := by
  have ho := situation_eq_some_iff.mp h
  simp only [outlook, Prod.mk.injEq] at ho
  refine situation_eq_some_iff.mpr ?_
  simp only [outlook, Prod.mk.injEq]
  refine ⟨ho.1, ?_, ?_⟩
  · simp [tasks, push, Situation.push, htask, ← ho.2.1]
  · simpa [jobs, push, Situation.push, hjobs] using ho.2.2

/-- Assumes: the frame on top is at work for the view and starts no compositions of it. -/
theorem situation_pop {frame : Frame α β} {task : Task α β} {stack : List (Frame α β)}
    (h : m.situation i = some s) (hstack : m.stack = frame :: stack)
    (htask : frame.task? i = some task) (hjobs : frame.jobs i = 0) :
    ∃ tasks, s.tasks = task :: tasks ∧ { m with stack }.situation i = some { s with tasks } := by
  have htasks := tasks_of_situation h
  simp only [tasks, hstack, List.filterMap_cons, htask] at htasks
  refine ⟨_, htasks.symm, ?_⟩
  rw [situation_eq_some_iff] at h ⊢
  simp only [outlook, Prod.mk.injEq] at h ⊢
  refine ⟨h.1, rfl, ?_⟩
  simpa [jobs, hstack, hjobs] using h.2.2

theorem situation_modifyView (f : View α β → View α β) (h : m.situation i = some s) :
    (m.withWorld (.modifyView i f)).situation i = some (s.modify f) := by
  have hview := view_of_situation h
  rw [situation_eq_some_iff] at h ⊢
  simp only [outlook, Prod.mk.injEq] at h ⊢
  refine ⟨?_, h.2⟩
  simp [withWorld, World.modifyView, hview, Situation.modify]

theorem situation_workOff (h : m.situation i = some s) :
    (m.workOff i).situation i = some s.workOff := by
  simp only [workOff, view_of_situation h, Situation.workOff]
  by_cases hdisposed : s.view.disposed
  · simpa [hdisposed] using situation_modifyView _ h
  · simpa [hdisposed] using situation_push (situation_modifyView _ h) (by simp [Frame.task?]) rfl

theorem situation_flush (h : m.situation i = some s) :
    (m.flush i).situation i = some s.flush := by
  simp only [flush, view_of_situation h, Situation.flush]
  by_cases hcomposing : s.view.composing
  · simpa [hcomposing] using situation_modifyView _ h
  · simpa [hcomposing] using situation_workOff (situation_modifyView _ h)

theorem situation_settle (h : m.situation i = some s) :
    (m.settle i).situation i = some s.settle := by
  simp only [settle, view_of_situation h, Situation.settle]
  by_cases hdirty : s.view.dirty
  · simpa [hdirty] using situation_workOff h
  · simpa [hdirty] using situation_modifyView _ h

theorem situation_schedule (h : m.situation i = some s) :
    (m.withWorld (.schedule i)).situation i = some s.schedule := by
  have hview := view_of_situation h
  have hjobs := jobs_of_situation h
  rw [situation_eq_some_iff] at h ⊢
  simp only [outlook, Prod.mk.injEq] at h ⊢
  refine ⟨?_, h.2.1, ?_⟩
  · simp [withWorld, World.schedule, World.modifyView, hview, Situation.schedule, Situation.modify]
  · simp only [Situation.schedule, ← hjobs]
    simp [jobs, withWorld, World.schedule, World.modifyView, List.count_append]
    omega

theorem situation_requestCompose (h : m.situation i = some s) :
    (m.requestCompose i).situation i = some (s.requestCompose m.world.inTick) := by
  simp only [requestCompose, view_of_situation h, Situation.requestCompose]
  by_cases htick : m.world.inTick
  · by_cases hscheduled : s.view.scheduled
    · simpa [htick, hscheduled] using h
    · simpa [htick, hscheduled] using situation_schedule h
  · simpa [htick] using situation_flush h

theorem viewTickets_eq (h : m.situation i = some s) :
    m.world.viewTickets i = s.view.listeners.tickets := by
  simp only [World.viewTickets, view_of_situation h]

theorem situation_becomeReady (value : β) (h : m.situation i = some s) :
    (m.becomeReady i value).situation i = some (s.becomeReady value) := by
  have hready := situation_modifyView (.becomeReady value) h
  have hsettling : ((m.withWorld (.modifyView i (.becomeReady value))).push
      (.settling i)).situation i = some ((s.modify (.becomeReady value)).push .settling) :=
    situation_push hready (by simp [Frame.task?]) rfl
  have htickets := viewTickets_eq hready
  simp only [becomeReady, htickets]
  exact situation_push hsettling (by simp [Frame.task?, Situation.modify, View.becomeReady]) rfl

theorem situation_composeIfDue (h : m.situation i = some s) :
    (m.composeIfDue i).situation i = some s.composeIfDue := by
  simp only [composeIfDue, view_of_situation h, Situation.composeIfDue]
  by_cases hdue : s.view.isDue
  · have hfresh := situation_modifyView (fun v ↦ { v with stale := false }) h
    simp only [hdue, if_true]
    change _ = some (match s.view.cachedValues?, s.view.composer with
      | none, _ => (s.modify fun v ↦ { v with stale := false }).settle
      | some inputs, .direct compose =>
        (s.modify fun v ↦ { v with stale := false }).becomeReady (compose inputs)
      | some _, .callback _ =>
        ((s.modify fun v ↦ { v with stale := false }).modify fun v ↦
          { v with lent := true }).push .composing)
    cases s.view.cachedValues? with
    | none => exact situation_settle hfresh
    | some inputs =>
      cases s.view.composer with
      | direct compose => exact situation_becomeReady _ hfresh
      | callback key =>
        exact (situation_congr (outlook_call _ _)).trans
          (situation_push (situation_modifyView _ hfresh) (by simp [Frame.task?]) rfl)
  · simpa [hdue] using situation_settle h

/-- Assumes: the view is live, and its values are not lent or the event carries none. -/
theorem situation_hear (slot : Nat) (event : Event α) (h : m.situation i = some s)
    (hlive : s.view.live) (hlent : (s.view.lent && event.isLoaded) = false) :
    (m.hear i slot event).situation i = some (s.hear m.world.inTick slot event) := by
  have hfound : m.world.liveView? i = some s.view := by
    simp [World.liveView?, view_of_situation h, hlive]
  have hheld : (m.push (.holding i)).situation i = some s :=
    (situation_congr (outlook_push rfl rfl)).trans h
  have habsorbed := situation_modifyView (.absorb slot event) hheld
  simp only [hear, hfound, hlent, Situation.hear]
  by_cases hdisposed : s.view.disposed
  · simpa [hdisposed] using habsorbed
  · simp only [hdisposed]
    cases event with
    | pending => exact habsorbed
    | loaded value => exact situation_requestCompose habsorbed
    | failed error => exact situation_flush habsorbed

end Outlook

end Machine

end LiveRecord.Flow
