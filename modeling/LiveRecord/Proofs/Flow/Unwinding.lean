import LiveRecord.Proofs.Flow.Quiescence

/-!
# What a raise does to one view

A raise takes operations from the stack that had work for a view, and drops what was put off for it
(`Situation.Loss`, and to the letter `Situation.Shed`). Together with the steps of a view that is
everything that a move does to it (`Machine.turns_move`, `Machine.acts_move`), so what these
preserve holds after every run, whatever raises (`Machine.turn_invariant`, `Machine.act_invariant`).

A view is spared while no work on its news is given up (`Machine.Spares`). One that is not spared
takes itself to be at work for good and composes nothing any more (`Situation.Stuck.turn`), and
there is no third way (`Machine.guarded_or_stuck`).
-/

set_option autoImplicit false

namespace LiveRecord.Flow

variable {α β : Type}

namespace Situation

variable {spared : Prop} {s s' : Situation α β}

/-- What giving operations up can do to a view. If the view is spared, no work on its news is given
up. -/
inductive Loss (spared : Prop) (s : Situation α β) : Situation α β → Prop
  | giveUp {task : Task α β} {tasks : List (Task α β)} (htasks : s.tasks = task :: tasks)
      (hspared : spared → task.works = false) : Loss spared s { s with tasks }
  | takeBack {tasks : List (Task α β)} (htasks : s.tasks = .composing :: tasks)
      (hspared : ¬ spared) :
      Loss spared s ({ s with tasks }.modify fun v ↦ { v with lent := false })
  | unschedule {jobs : Nat} (hjobs : jobs ≤ s.jobs) :
      Loss spared s ({ s with jobs }.modify fun v ↦ { v with scheduled := false })

/-- What giving operations up does to a view, to the letter: no callback that composes goes unseen,
and every composition that was put off is accounted for. -/
inductive Shed (spared : Prop) (s : Situation α β) : Situation α β → Prop
  | giveUp {task : Task α β} {tasks : List (Task α β)} (htasks : s.tasks = task :: tasks)
      (hcomposing : task ≠ .composing) (hspared : spared → task.works = false) :
      Shed spared s { s with tasks }
  | takeBack {tasks : List (Task α β)} (htasks : s.tasks = .composing :: tasks)
      (hspared : ¬ spared) :
      Shed spared s ({ s with tasks }.modify fun v ↦ { v with lent := false })
  | unschedule {jobs dropped : Nat} (hjobs : s.jobs = jobs + dropped) (hdropped : 0 < dropped) :
      Shed spared s ({ s with jobs }.modify fun v ↦ { v with scheduled := false })

theorem Shed.loss (h : s.Shed spared s') : s.Loss spared s' := by
  cases h with
  | giveUp htasks hcomposing hspared => exact .giveUp htasks hspared
  | takeBack htasks hspared => exact .takeBack htasks hspared
  | unschedule hjobs hdropped => exact .unschedule (hjobs ▸ Nat.le_add_right _ _)

/-- What one move does to a view, to the letter. -/
inductive Act (spared : Prop) (s : Situation α β) : List (ViewNotice α β) → Situation α β → Prop
  | step {seen : List (ViewNotice α β)} {s' : Situation α β} (h : s.Step seen s') :
      Act spared s seen s'
  | shed {s' : Situation α β} (h : s.Shed spared s') : Act spared s [] s'

/-- What one move can do to a view. -/
inductive Turn (spared : Prop) (s : Situation α β) : List (ViewNotice α β) → Situation α β → Prop
  | step {seen : List (ViewNotice α β)} {s' : Situation α β} (h : s.Step seen s') :
      Turn spared s seen s'
  | lose {s' : Situation α β} (h : s.Loss spared s') : Turn spared s [] s'

theorem Act.turn {seen : List (ViewNotice α β)} (h : s.Act spared seen s') :
    s.Turn spared seen s' := by
  cases h with
  | step hstep => exact .step hstep
  | shed hshed => exact .lose hshed.loss

end Situation

/-! ### What becomes of the slots -/

namespace Situation

variable {spared : Prop} {s s' : Situation α β} {seen : List (ViewNotice α β)}

theorem slots_composeIfDue (s : Situation α β) : s.composeIfDue.view.slots = s.view.slots := by
  unfold composeIfDue
  split
  · dsimp only
    split
    · exact (takesOn_settle _).steady.slots
    · rfl
    · rfl
  · exact (takesOn_settle s).steady.slots

theorem Hearing.slots {slot : Nat} {event : Event α} (h : s.Hearing slot event seen s') :
    s'.view.slots = s.view.slots ∨ slot < s.view.slots.length ∧
      s'.view.slots = (s.view.absorb slot event).slots ∧
        seen = if s.view.disposed then [] else [.delivered slot event] := by
  cases h with
  | deaf => exact .inl rfl
  | heard inTick hslot hlive hlent =>
    refine .inr ⟨hslot, ?_, rfl⟩
    unfold hear
    split
    · rfl
    · cases event with
      | pending => rfl
      | loaded value => exact (takesOn_requestCompose inTick _).steady.slots
      | failed error => exact (takesOn_flush _).steady.slots

/-- The slots stay the same, or take in an event. -/
theorem Turn.slots (hturn : s.Turn spared seen s') :
    s'.view.slots = s.view.slots ∨ ∃ slot event, slot < s.view.slots.length ∧
      s'.view.slots = (s.view.absorb slot event).slots ∧
        seen = if s.view.disposed then [] else [.delivered slot event] := by
  cases hturn with
  | step hstep =>
    cases hstep with
    | keep hkept =>
      obtain ⟨gone, inputs, owned, live, -, rfl⟩ := hkept
      exact .inl rfl
    | hear slot event hheard => exact hheard.slots.imp_right fun h ↦ ⟨slot, event, h⟩
    | connect input htasks registered event hheard =>
      rcases hheard.slots with hsame | ⟨hslot, habsorbed, hseen⟩
      · exact .inl hsame
      · exact .inr ⟨input.2, event, hslot, habsorbed.trans (View.slots_absorb_congr rfl rfl), hseen⟩
    | connected inTick htasks => exact .inl (takesOn_requestCompose inTick _).steady.slots
    | run hjobs hlive => exact .inl (takesOn_flush _).steady.slots
    | compose htasks => exact .inl (slots_composeIfDue _)
    | settle htasks => exact .inl (takesOn_settle _).steady.slots
    | _ => exact .inl rfl
  | lose hloss =>
    cases hloss <;> exact .inl rfl

end Situation

/-- The frame goes through the news of the view. -/
def Frame.works (view : ViewId) (frame : Frame α β) : Bool := (frame.task? view).any (·.works)

namespace Frame

variable {view j : ViewId}

@[simp] theorem works_failing (errors : List SourceError) :
    (failing j errors : Frame α β).works view = (j == view) := by
  by_cases hj : j = view <;> simp [works, task?, hj, Task.works]

@[simp] theorem works_composing : (composing j : Frame α β).works view = (j == view) := by
  by_cases hj : j = view <;> simp [works, task?, hj, Task.works]

@[simp] theorem works_settling : (settling j : Frame α β).works view = (j == view) := by
  by_cases hj : j = view <;> simp [works, task?, hj, Task.works]

@[simp] theorem works_announcing (event : ViewEvent β) (tickets : List Nat) :
    (announcing j event tickets : Frame α β).works view = false := by
  by_cases hj : j = view <;> simp [works, task?, hj, Task.works]

@[simp] theorem works_connecting (inputs : List (SourceId × Nat)) :
    (connecting j inputs : Frame α β).works view = false := by
  by_cases hj : j = view <;> simp [works, task?, hj, Task.works]

end Frame

namespace World

theorem deferred_unschedule (views : List ViewId) (world : World α β) :
    (world.unschedule views).deferred = world.deferred := by
  unfold unschedule
  induction views generalizing world with
  | nil => rfl
  | cons view rest ih => exact ih _

theorem getElem?_unschedule (views : List ViewId) (world : World α β) (i : ViewId) :
    (world.unschedule views).views[i]? = world.views[i]?.map fun v ↦
      if i ∈ views then { v with scheduled := false } else v := by
  unfold unschedule
  induction views generalizing world with
  | nil => simp
  | cons view rest ih =>
    rw [List.foldl_cons, ih, modifyView, List.getElem?_modify, Option.map_eq_map, Option.map_map]
    congr 1
    funext v
    by_cases hview : view = i
    · by_cases hrest : i ∈ rest <;> simp [hview, hrest]
    · simp [hview, Ne.symm hview]

end World

namespace Machine

variable {i j : ViewId} {m m' : Machine α β} {spared : Prop} {stack : List (Frame α β)}

/-- The move gives up no work on the news of the view. -/
def Spares (view : ViewId) (m : Machine α β) : Move α β → Prop
  | .advance => m.isUnwinding → m.stack.head?.any (·.works view) = false
  | .request _ => True

instance (view : ViewId) (m : Machine α β) (move : Move α β) : Decidable (m.Spares view move) := by
  unfold Spares
  split <;> infer_instance

/-- What the turns of views rest on. It holds from the start of every run. -/
structure Grounded (m : Machine α β) : Prop where
  attended : m.ComposersAttended
  wired : m.Wired

theorem Grounded.start : Grounded ({} : Machine α β) := ⟨.start, .start⟩

theorem Grounded.move (h : m.Grounded) (move : Move α β) : (m.move move).Grounded :=
  ⟨composersAttended_move move h.attended, wired_move move h.wired⟩

theorem Grounded.run (h : m.Grounded) (moves : List (Move α β)) : (m.run moves).Grounded :=
  run_preserves (fun _ move h ↦ h.move move) h moves

/-! ### What is left when operations are given up -/

theorem takes_of_steps {seen : List (ViewNotice α β)} (h : Steps i m seen m') :
    Takes (Situation.Act spared) i m seen m' :=
  h.imp fun _ _ ↦ .step

/-- Assumes: compositions of these views are dropped, and the views are no longer scheduled. -/
theorem takes_unschedule {views : List ViewId}
    (hviews : m'.world.views[i]? = m.world.views[i]?.map fun v ↦
      if i ∈ views then { v with scheduled := false } else v)
    (htasks : m'.tasks i = m.tasks i) (hjobs : m.jobs i = m'.jobs i + views.count i) :
    Takes (Situation.Act spared) i m [] m' := by
  by_cases hdropped : i ∈ views
  · simp only [if_pos hdropped] at hviews
    constructor
    case of_some =>
      intro s hs
      refine ⟨_, ?_, .shed (.unschedule ((jobs_of_situation hs).symm.trans hjobs)
        (List.count_pos_iff.mpr hdropped))⟩
      rw [view_of_situation hs] at hviews
      rw [situation_eq_some_iff, outlook, hviews, htasks, tasks_of_situation hs]
      rfl
    case of_none =>
      intro hunborn
      rw [hunborn.1] at hviews
      exact ⟨rfl, hviews, htasks.trans hunborn.2⟩
  · simp only [if_neg hdropped, Option.map_id'] at hviews
    rw [List.count_eq_zero_of_not_mem hdropped, Nat.add_zero] at hjobs
    refine takes_of_steps (.of_outlook ?_)
    simp only [outlook, hviews, htasks, hjobs]

theorem takes_abandonTick : Takes (Situation.Act spared) i m [] (m.withWorld .abandonTick) := by
  by_cases hlast : m.world.depth - 1 = 0
  · have hviews : (m.withWorld .abandonTick).world.views[i]? = m.world.views[i]?.map fun v ↦
        if i ∈ m.world.deferred then { v with scheduled := false } else v := by
      simp only [withWorld, World.abandonTick, World.closeTick, if_pos hlast]
      exact World.getElem?_unschedule m.world.deferred _ i
    have hjobs : (m.withWorld .abandonTick).jobs i = (m.stack.map (·.jobs i)).sum := by
      simp [jobs, withWorld, World.abandonTick, World.closeTick, if_pos hlast,
        World.deferred_unschedule]
    refine takes_unschedule hviews rfl ?_
    rw [hjobs, Machine.jobs, Nat.add_comm]
  · refine takes_of_steps (.of_outlook (outlook_withWorld ?_ ?_)) <;>
      simp only [World.abandonTick, World.closeTick, if_neg hlast] <;> rfl

theorem takes_dropped {views : List ViewId} {answer : Answer α β}
    (hstack : m.stack = .draining views answer :: stack) :
    Takes (Situation.Act spared) i m [] ({ m with stack }.withWorld (.unschedule views)) := by
  have hjobs : m.jobs i = ({ m with stack }.withWorld (.unschedule views)).jobs i +
      views.count i := by
    simp only [jobs, withWorld, World.deferred_unschedule, hstack, List.map_cons, List.sum_cons,
      Frame.jobs]
    omega
  refine takes_unschedule (World.getElem?_unschedule views m.world i) ?_ hjobs
  simp [tasks, withWorld, hstack, Frame.task?]

/-- A frame is given up that leaves nothing behind. Assumes: if the view is spared, the frame does
not go through its news. -/
theorem takes_giveUp_frame {frame : Frame α β} (hstack : m.stack = frame :: stack)
    (hjobs : frame.jobs i = 0) (hcomposing : frame.task? i ≠ some .composing)
    (hspared : spared → frame.works i = false) :
    Takes (Situation.Act spared) i m [] { m with stack } := by
  cases htask : frame.task? i with
  | none => exact takes_of_steps (.of_outlook (outlook_pop hstack htask hjobs))
  | some task =>
    constructor
    case of_some =>
      intro s hs
      obtain ⟨tasks, htasks, hpopped⟩ := situation_pop hs hstack htask hjobs
      refine ⟨_, hpopped, .shed (.giveUp htasks (fun heq ↦ hcomposing (heq ▸ htask)) fun h ↦ ?_)⟩
      simpa [Frame.works, htask] using hspared h
    case of_none =>
      intro hunborn
      have htasks := hunborn.2
      simp [tasks, hstack, htask] at htasks

/-- The values of a view are no longer lent. Assumes: if the view is spared, they were lent to
another one. -/
theorem takes_giveUp_composing (hstack : m.stack = .composing j :: stack)
    (hspared : spared → j ≠ i) :
    Takes (Situation.Act spared) i m []
      ({ m with stack }.withWorld (.modifyView j fun v ↦ { v with lent := false })) := by
  by_cases hij : j = i
  · constructor
    case of_some =>
      intro s hs
      obtain ⟨tasks, htasks, hpopped⟩ := situation_pop hs hstack (if_pos hij) rfl
      subst hij
      exact ⟨_, situation_modifyView _ hpopped, .shed (.takeBack htasks fun h ↦ hspared h rfl)⟩
    case of_none =>
      intro hunborn
      have htasks := hunborn.2
      simp [tasks, hstack, Frame.task?, hij] at htasks
  · exact takes_of_steps (.of_outlook ((outlook_modifyView _ hij).trans
      (outlook_pop hstack (if_neg hij) rfl)))

/-- A registration is taken away that was never handed over, and then its view may be let go. -/
theorem takes_giveUp_subscribing {ticket : Nat}
    (hstack : m.stack = .subscribing (.view j) ticket :: stack) :
    Takes (Situation.Act spared) i m []
      (({ m with stack }.withWorld (.unregister (.view j) ticket)).release j) := by
  have hpopped : Keeps i m { m with stack } := .of_outlook (outlook_pop hstack rfl rfl)
  have hremoved := hpopped.trans (keeps_unregister (.view j) ticket)
  exact takes_of_steps (hremoved.trans keeps_release).steps

theorem takes_giveUp (message : String)
    (hspared : spared → m.stack.head?.any (·.works i) = false) :
    Takes (Situation.Act spared) i m [] (m.giveUp message) := by
  have hgivesUp := m.givesUp message
  generalize m.giveUp message = m' at hgivesUp ⊢
  cases hgivesUp with
  | rest | calling => exact takes_of_steps (.of_outlook rfl)
  | closing hstack => exact takes_abandonTick.after (outlook_pop hstack rfl rfl)
  | draining hstack => exact takes_dropped hstack
  | composing hstack =>
    refine takes_giveUp_composing hstack fun h hview ↦ ?_
    simpa [hstack, hview] using hspared h
  | @holding view below hstack | @building view below hstack =>
    have hpopped : { m with stack := below }.outlook i = m.outlook i := outlook_pop hstack rfl rfl
    exact takes_of_steps ((Keeps.of_outlook hpopped).trans keeps_release).steps
  | subscribing hstack => exact takes_of_steps (.of_outlook (outlook_pop hstack rfl rfl))
  | subscribingView hstack => exact takes_giveUp_subscribing hstack
  | @pop frame below hstack hframe =>
    simp only [hstack, List.head?_cons, Option.any_some] at hspared
    cases frame with
    | delivering _ _ _ | announcing _ _ _ | failing _ _ | settling _ | connecting _ _ | feeding _ =>
      exact takes_giveUp_frame hstack rfl (by simp [Frame.task?]) hspared
    | _ => cases hframe

/-! ### Every move -/

/-- A move is an act of every view that there is, and views come into being with nothing but their
inputs to connect. -/
theorem acts_move (move : Move α β) (h : m.Grounded) (hspared : spared → m.Spares i move) :
    Turns (Situation.Act spared) i m (historyOf i (m.notices move)) (m.move move) := by
  cases move with
  | advance =>
    left
    simp only [Machine.move, advance, notices]
    cases hc : m.control with
    | user heard => exact takes_of_steps (.of_outlook rfl)
    | returning answer => exact takes_of_steps (steps_resume answer h.attended h.wired hc)
    | unwinding message =>
      exact takes_giveUp message fun hs ↦ hspared hs (by simp [isUnwinding, hc])
  | request request =>
    by_cases habandon : request = .abandonTick
    · subst habandon
      left
      simp only [Machine.move, submit, notices]
      cases m.control with
      | user heard => exact takes_abandonTick.before rfl
      | _ => exact takes_of_steps (.of_outlook rfl)
    · exact (steps_request request habandon).imp_left takes_of_steps

/-- A move is a turn of every view that there is, and views come into being with nothing but their
inputs to connect. -/
theorem turns_move (move : Move α β) (h : m.Grounded) (hspared : spared → m.Spares i move) :
    Turns (Situation.Turn spared) i m (historyOf i (m.notices move)) (m.move move) :=
  (acts_move move h hspared).imp_left fun htakes ↦ htakes.imp fun _ _ ↦ Situation.Act.turn

/-- What every turn of a view preserves, every run preserves from where it holds. -/
theorem Grounded.turn_run {property : Situation α β → List (ViewNotice α β) → Prop}
    {s : Situation α β} (h : m.Grounded)
    (hturn : ∀ s past seen s', property s past → s.Turn False seen s' → property s' (past ++ seen))
    (moves : List (Move α β)) (hs : m.situation i = some s) {past : List (ViewNotice α β)}
    (hstart : property s past) :
    ∃ s', (m.run moves).situation i = some s' ∧
      property s' (past ++ historyOf i (m.history moves)) := by
  exact turns_run (fun _ move hg _ ↦ ⟨hg.move move, turns_move move hg False.elim⟩) hturn h
    (along_of_forall (fun _ _ ↦ trivial) moves m) hs hstart

/-- What holds of every view that comes into being, and is preserved by every turn of a view, holds
of every view after every run. -/
theorem turn_invariant {property : Situation α β → List (ViewNotice α β) → Prop}
    (hfresh : ∀ s, s.Fresh → property s [])
    (hturn : ∀ s past seen s', property s past → s.Turn False seen s' → property s' (past ++ seen))
    {moves : List (Move α β)} {s : Situation α β} (h : (run moves {}).situation i = some s) :
    property s (historyOf i (history moves {})) :=
  turns_invariant (fun _ move hg _ ↦ ⟨hg.move move, turns_move move hg False.elim⟩) hturn hfresh
    .start ⟨rfl, rfl⟩ (along_of_forall (fun _ _ ↦ trivial) moves {}) h

/-- What holds of every view that comes into being, and is preserved by everything that a move does
to a view, holds of every view after every run. -/
theorem act_invariant {property : Situation α β → Prop} (hfresh : ∀ s, s.Fresh → property s)
    (hact : ∀ s seen s', property s → s.Act False seen s' → property s')
    {moves : List (Move α β)} {s : Situation α β} (h : (run moves {}).situation i = some s) :
    property s :=
  turns_invariant (fun _ move hg _ ↦ ⟨hg.move move, acts_move move hg False.elim⟩)
    (fun s _ seen s' ↦ hact s seen s') hfresh .start ⟨rfl, rfl⟩
    (along_of_forall (fun _ _ ↦ trivial) moves {}) h

/-! ### Views whose work is given up -/

end Machine

namespace Situation

variable {spared : Prop} {s s' : Situation α β} {seen : List (ViewNotice α β)}

/-- One task goes through the news of the view while it is composing, and none otherwise. Failures
that were not announced will be. -/
structure Guarded (s : Situation α β) : Prop extends Staffed s where
  failures : s.view.disposed = false → s.view.failures ≠ [] → s.view.dirty

/-- The view is composing for good: the task that went through its news was given up. -/
structure Stuck (s : Situation α β) : Prop where
  composing : s.view.composing
  workers : Task.workers s.tasks = 0

theorem Accounted.guarded (h : s.Accounted) : s.Guarded := ⟨h.toStaffed, h.failures⟩

/-- Assumes: a task on top that goes through the news of the view. -/
theorem Guarded.atWork {task : Task α β} {tasks : List (Task α β)} (h : s.Guarded)
    (htasks : s.tasks = task :: tasks) (htask : task.works) : { s with tasks }.AtWork := by
  obtain ⟨hcomposing, hworkers⟩ := h.toStaffed.alone htasks htask
  exact ⟨hcomposing, hworkers, h.scheduled, h.failures⟩

/-- Assumes: the task that ends does not go through the news of the view. -/
theorem Guarded.pop {task : Task α β} {tasks : List (Task α β)} (h : s.Guarded)
    (htasks : s.tasks = task :: tasks) (htask : task.works = false) :
    { s with tasks }.Guarded := by
  refine ⟨⟨?_, h.dirty, h.scheduled⟩, h.failures⟩
  rw [← h.workers, htasks, Task.workers_cons, htask]
  rfl

theorem Guarded.push {task : Task α β} (h : s.Guarded) (htask : task.works = false) :
    (s.push task).Guarded := by
  refine ⟨⟨?_, h.dirty, h.scheduled⟩, h.failures⟩
  rw [Situation.push, Task.workers_cons, htask]
  exact h.workers

theorem AtWork.guarded_settle (h : s.AtWork) : s.settle.Guarded := by
  unfold Situation.settle
  by_cases hdirty : s.view.dirty
  · rw [if_pos hdirty]
    exact (accounted_workOff h.workers h.composing h.scheduled).guarded
  · rw [if_neg hdirty]
    exact ⟨⟨h.workers, fun hd ↦ absurd hd hdirty, h.scheduled⟩, h.failures⟩

theorem AtWork.guarded_becomeReady (value : β) (h : s.AtWork) : (s.becomeReady value).Guarded := by
  refine ⟨⟨?_, fun _ ↦ h.composing, h.scheduled⟩, h.failures⟩
  have hcomposing : (s.view.becomeReady value).composing = true := h.composing
  simp [Situation.becomeReady, Situation.push, modify, Task.workers_cons, Task.works, h.workers,
    hcomposing]

theorem Guarded.hearing {slot : Nat} {event : Event α} (h : s.Guarded)
    (hheard : s.Hearing slot event seen s') : s'.Guarded := by
  cases hheard with
  | deaf => exact h
  | heard inTick hslot hlive hlent =>
    by_cases hdisposed : s.view.disposed
    · obtain ⟨slots, -, habsorbed⟩ := View.absorb_of_disposed slot event hdisposed
      unfold Situation.hear
      rw [if_pos hdisposed]
      simp only [modify, habsorbed]
      exact ⟨⟨h.workers, h.dirty, h.scheduled⟩, h.failures⟩
    · rw [Bool.not_eq_true] at hdisposed
      cases event with
      | loaded value => exact (h.hear_loaded inTick slot value h.failures hdisposed).guarded
      | failed error => exact (h.hear_failed inTick slot error hdisposed).guarded
      | pending =>
        simp only [Situation.hear, if_neg (Bool.not_eq_true _ |>.mpr hdisposed), modify,
          View.absorb_pending hdisposed]
        exact ⟨⟨h.workers, h.dirty, h.scheduled⟩, h.failures⟩

/-- Assumes: the next input of a new view is being connected. -/
theorem Guarded.connecting {input : SourceId × Nat} {inputs : List (SourceId × Nat)}
    {tasks : List (Task α β)} (h : s.Guarded)
    (htasks : s.tasks = .connecting (input :: inputs) :: tasks)
    (registered : List (SourceId × Nat)) :
    Guarded ({ s with tasks := .connecting inputs :: tasks }.modify fun v ↦
      { v with inputs := registered }) := by
  have hrest : Guarded { s with tasks := .connecting inputs :: tasks } :=
    (h.pop htasks rfl).push rfl
  exact ⟨⟨hrest.workers, h.dirty, h.scheduled⟩, h.failures⟩

theorem Guarded.step (h : s.Guarded) (hstep : s.Step seen s') : s'.Guarded := by
  cases hstep with
  | keep hkept =>
    obtain ⟨gone, inputs, owned, live, hlive, rfl⟩ := hkept
    exact ⟨⟨h.workers, h.dirty, fun hl ↦ h.scheduled (hlive hl)⟩, h.failures⟩
  | register key => exact ⟨⟨h.workers, h.dirty, h.scheduled⟩, h.failures⟩
  | dispose => exact ⟨⟨h.workers, h.dirty, h.scheduled⟩, by simp [modify]⟩
  | hear slot event hheard => exact h.hearing hheard
  | connect input htasks registered event hheard =>
    exact (h.connecting htasks registered).hearing hheard
  | connected inTick htasks =>
    exact ((h.pop htasks rfl).toStaffed.requestCompose inTick h.failures).guarded
  | run hjobs hlive =>
    refine Accounted.guarded ?_
    exact Staffed.flush ⟨h.workers, h.dirty, by simp [modify]⟩
  | skip hjobs hlive =>
    exact ⟨⟨h.workers, h.dirty, fun hl ↦ absurd hl (by simp [hlive])⟩, h.failures⟩
  | fail htasks =>
    refine ⟨⟨?_, h.dirty, h.scheduled⟩, h.failures⟩
    rw [← h.workers, htasks]
    simp [Task.workers_cons, Task.works]
  | announce htasks => exact (h.pop htasks rfl).push rfl
  | announced htasks => exact h.pop htasks rfl
  | compose htasks => exact (h.atWork htasks rfl).composeIfDue.guarded
  | composed htasks value =>
    have hwork := h.atWork htasks rfl
    exact AtWork.guarded_becomeReady value ⟨hwork.composing, hwork.workers, hwork.scheduled,
      hwork.failures⟩
  | settle htasks => exact (h.atWork htasks rfl).guarded_settle

/-- A view stays guarded unless it is not spared. -/
theorem Guarded.turn (h : s.Guarded) (hturn : s.Turn spared seen s') :
    s'.Guarded ∨ ¬ spared ∧ s'.Stuck := by
  cases hturn with
  | step hstep => exact .inl (h.step hstep)
  | lose hloss =>
    cases hloss with
    | @giveUp task tasks htasks hspared =>
      cases hworks : task.works with
      | false => exact .inl (h.pop htasks hworks)
      | true =>
        have hwork := h.atWork htasks hworks
        exact .inr ⟨fun hs ↦ by simp [hspared hs] at hworks, hwork.composing, hwork.workers⟩
    | takeBack htasks hspared =>
      have hwork := h.atWork htasks rfl
      exact .inr ⟨hspared, hwork.composing, hwork.workers⟩
    | unschedule hjobs => exact .inl ⟨⟨h.workers, h.dirty, by simp [modify]⟩, h.failures⟩

/-! #### Views that are stuck -/

theorem Stuck.flush (h : s.Stuck) : s.flush.Stuck := by
  rw [Situation.flush, if_pos h.composing]
  exact ⟨h.composing, h.workers⟩

theorem Stuck.requestCompose (inTick : Bool) (h : s.Stuck) : (s.requestCompose inTick).Stuck := by
  unfold Situation.requestCompose
  split
  · exact h.flush
  · split
    · exact h
    · exact ⟨h.composing, h.workers⟩

theorem Stuck.pop {task : Task α β} {tasks : List (Task α β)} (h : s.Stuck)
    (htasks : s.tasks = task :: tasks) : task.works = false ∧ Stuck { s with tasks } := by
  have hworkers := h.workers
  rw [htasks, Task.workers_cons, Nat.add_eq_zero_iff] at hworkers
  refine ⟨?_, h.composing, hworkers.1⟩
  cases htask : task.works with
  | false => rfl
  | true => simp [htask] at hworkers

theorem Stuck.hearing {slot : Nat} {event : Event α} (h : s.Stuck)
    (hheard : s.Hearing slot event seen s') :
    s'.Stuck ∧ ViewNotice.calls seen = [] ∧ ViewNotice.compositions seen = [] := by
  cases hheard with
  | deaf => exact ⟨h, rfl, rfl⟩
  | heard inTick hslot hlive hlent =>
    refine ⟨?_, by split <;> rfl, by split <;> rfl⟩
    have habsorbed : (s.modify (.absorb slot event)).Stuck := by
      refine ⟨?_, h.workers⟩
      rw [modify, View.composing_absorb]
      exact h.composing
    unfold Situation.hear
    split
    · exact habsorbed
    · cases event with
      | pending => exact habsorbed
      | loaded value => exact habsorbed.requestCompose inTick
      | failed error => exact habsorbed.flush

/-- A view that is stuck stays so, and composes nothing any more. -/
theorem Stuck.turn (h : s.Stuck) (hturn : s.Turn spared seen s') :
    s'.Stuck ∧ ViewNotice.calls seen = [] ∧ ViewNotice.compositions seen = [] := by
  cases hturn with
  | step hstep =>
    cases hstep with
    | keep hkept =>
      obtain ⟨gone, inputs, owned, live, -, rfl⟩ := hkept
      exact ⟨⟨h.composing, h.workers⟩, rfl, rfl⟩
    | register key =>
      refine ⟨⟨h.composing, h.workers⟩, ?_, ?_⟩ <;> cases s.view.status.event? <;> rfl
    | dispose | skip hjobs hlive =>
      exact ⟨⟨h.composing, h.workers⟩, rfl, rfl⟩
    | hear slot event hheard => exact h.hearing hheard
    | @connect input inputs tasks htasks registered event _ _ hheard =>
      have hconnecting : Stuck ({ s with tasks := .connecting inputs :: tasks }.modify fun v ↦
          { v with inputs := registered }) := by
        refine ⟨h.composing, ?_⟩
        rw [modify, Task.workers_cons, (h.pop htasks).2.workers]
        rfl
      exact hconnecting.hearing hheard
    | connected inTick htasks => exact ⟨(h.pop htasks).2.requestCompose inTick, rfl, rfl⟩
    | run hjobs hlive =>
      refine ⟨Stuck.flush ?_, rfl, rfl⟩
      exact ⟨h.composing, h.workers⟩
    | announce htasks =>
      refine ⟨⟨h.composing, ?_⟩, ?_, ?_⟩
      · rw [Task.workers_cons, (h.pop htasks).2.workers]
        rfl
      · cases s.view.listeners.find? _ <;> rfl
      · cases s.view.listeners.find? _ <;> rfl
    | announced htasks => exact ⟨(h.pop htasks).2, rfl, rfl⟩
    | fail htasks | compose htasks | composed htasks value | settle htasks =>
      exact absurd (h.pop htasks).1 (by simp [Task.works])
  | lose hloss =>
    cases hloss with
    | giveUp htasks hspared | takeBack htasks hspared =>
      exact ⟨⟨h.composing, (h.pop htasks).2.workers⟩, rfl, rfl⟩
    | unschedule hjobs => exact ⟨⟨h.composing, h.workers⟩, rfl, rfl⟩

end Situation

/-- The work on the news of a view is seen to, or was given up for good. -/
theorem Machine.guarded_or_stuck {view : ViewId} {moves : List (Move α β)} {s : Situation α β}
    (h : (run moves {}).situation view = some s) : s.Guarded ∨ s.Stuck := by
  refine @turn_invariant α β view (fun s _ ↦ s.Guarded ∨ s.Stuck) (fun s hfresh ↦ ?_)
    (fun s past seen s' hs hturn ↦ ?_) moves s h
  · exact .inl hfresh.accounted.guarded
  · rcases hs with hguarded | hstuck
    · exact (hguarded.turn hturn).imp_right And.right
    · exact .inr (hstuck.turn hturn).1

end LiveRecord.Flow
