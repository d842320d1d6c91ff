import LiveRecord.Proofs.Flow.Restacking
import LiveRecord.Proofs.Flow.Unwinding

/-!
# After a raise that was caught

Ticks that the core opened are ended however their operation ends, so the number of open ticks after
a call, raised or not, is the number before it and what the user opened and did not end
(`Machine.depth_run`). A view is not as lucky: the mark that it is composing is taken back by the
task that goes through its news, and if a raise gives that task up, the view waits for it for good
(`Situation.Stuck`). The views that recover from a raise are exactly those whose work was not given
up (`Machine.recovers_iff`). `Machine.stuck_raisedInPass` is a run in which it was.
-/

set_option autoImplicit false

namespace LiveRecord.Flow

variable {α β : Type}

/-! ### Open ticks -/

/-- How many ticks end with the operations at work. -/
def closings (stack : List (Frame α β)) : Nat := stack.countP (·.closes)

section Closings

variable {frame : Frame α β} {below new : List (Frame α β)} {view : ViewId}

theorem closings_cons : closings (frame :: below) = closings below + frame.closes.toNat := by
  rw [closings, List.countP_cons, closings]
  cases frame.closes <;> rfl

theorem closings_append : closings (new ++ below) = closings new + closings below :=
  List.countP_append

theorem closings_append_hands (hhands : ∀ frame ∈ new, frame.hands) :
    closings (new ++ below) = closings below :=
  countP_append_hands (fun _ hclosing ↦ Bool.or_eq_true_iff.mpr (.inr hclosing)) hhands

theorem closings_cons_of_not_mark (hmark : frame.isMark = false) :
    closings (frame :: below) = closings below :=
  countP_cons_of_not_mark (fun _ hclosing ↦ Bool.or_eq_true_iff.mpr (.inr hclosing)) hmark

theorem closings_work (hnew : WorkFrames view new) : closings new = 0 := by
  cases hnew <;> rfl

theorem Frame.Starts.closings {world : World α β} {above : List (Frame α β)}
    (h : frame.Starts world above) : closings above = 0 := by
  cases h with
  | nothing => rfl
  | call call => rfl
  | work hnew _ =>
    rw [closings_append, closings_work hnew]
    rfl

end Closings

namespace Machine

/-- The user ends a tick only while one of its own is open. -/
def EndsOwn (m : Machine α β) (move : Move α β) : Prop :=
  m.closes move → closings m.stack < m.world.depth

instance (m : Machine α β) (move : Move α β) : Decidable (m.EndsOwn move) := by
  unfold EndsOwn
  infer_instance

/-- How many moves of a run are of that kind. -/
def tally (counts : Machine α β → Move α β → Bool) : List (Move α β) → Machine α β → Nat
  | [], _ => 0
  | move :: rest, m => (counts m move).toNat + tally counts rest (m.move move)

variable {m m' : Machine α β} {accepted : List (SourceId × Event α)}

/-- A tick of the core is open for each operation that ends one. -/
theorem closings_restacks (hrestacks : m.Restacks accepted m')
    (h : closings m.stack ≤ m.world.depth) :
    m'.world.depth + closings m.stack = m.world.depth + closings m'.stack := by
  cases hrestacks with
  | swap hgone hkept hstack hstack' hunmoved =>
    rw [hunmoved.depth, hstack, hstack', closings_append_hands hgone, closings_append_hands hkept]
  | call hkept hstack' hunmoved =>
    rw [hunmoved.depth, hstack', closings_cons, closings_append_hands hkept]
    rfl
  | ended hstack hworld =>
    rw [hworld, hstack, closings_cons]
    rfl
  | @emit _ source event answer gone kept below hthere hgone hkept hstack hstack' hworld =>
    have hdepth : (publish source event m.world).depth = m.world.depth + 1 := rfl
    have hclosings : closings m'.stack = closings below + 1 := by
      rw [hstack', closings_cons, closings_cons, closings_append_hands hkept]
      rfl
    rw [hworld, hdepth, hclosings, hstack, closings_append_hands hgone]
    omega
  | build hstack' hunmoved =>
    have hdepth : m.world.openTick.depth = m.world.depth + 1 := rfl
    rw [hunmoved.depth, hdepth, hstack', closings_cons, closings_cons, closings_cons]
    simp only [Frame.closes, Bool.toNat_false, Bool.toNat_true]
    omega
  | close hstack hstack' hviews hunmoved =>
    rw [hstack, closings_cons] at h
    rw [hunmoved.depth, World.depth_closeTick, hstack, hstack', closings_cons, closings_cons]
    simp only [Frame.closes, Bool.toNat_false, Bool.toNat_true] at h ⊢
    omega
  | abandoned hunwinding hstack hunmoved =>
    rw [hstack, closings_cons] at h
    rw [hunmoved.depth, World.depth_closeTick, hstack, closings_cons]
    simp only [Frame.closes, Bool.toNat_true] at h ⊢
    omega
  | drop hstack hmark hdone hunmoved => rw [hunmoved.depth, hstack, closings_cons_of_not_mark hmark]
  | proceed hnext hstack hstack' habove hunmoved =>
    rw [hunmoved.depth, hstack, hstack', closings_append, habove.closings, Nat.zero_add,
      closings_cons_of_not_mark hnext.isMark.1, closings_cons_of_not_mark hnext.isMark.2]
  | fail hstack hstack' hunmoved =>
    rw [hunmoved.depth, hstack, hstack', closings_cons, closings_cons, closings_cons]
    rfl
  | @work _ view frame new below hframe hnew hstack hstack' hunmoved =>
    have hmark : frame.isMark = false := by cases hframe <;> rfl
    rw [hunmoved.depth, hstack, hstack', closings_append, closings_work hnew, Nat.zero_add,
      closings_cons_of_not_mark hmark]
  | connected hnew hbegins hstack hstack' hunmoved =>
    rw [hunmoved.depth, hstack, hstack', closings_append, closings_work hnew, Nat.zero_add,
      closings_cons_of_not_mark rfl]

/-- Assumes: the user ends no tick of the core. -/
theorem depth_move (move : Move α β) (hwired : m.Wired) (hown : m.EndsOwn move)
    (h : closings m.stack ≤ m.world.depth) :
    closings (m.move move).stack ≤ (m.move move).world.depth ∧
      (m.move move).world.depth + closings m.stack + (m.closes move).toNat =
        m.world.depth + closings (m.move move).stack + (m.opens move).toNat := by
  by_cases hticks : m.opens move ∨ m.closes move
  · have hclosings : closings (m.move move).stack = closings m.stack := by
      obtain ⟨-, -, hsame | ⟨views, hdraining⟩⟩ := ticks_move hticks
      · rw [hsame]
      · rw [hdraining]
        rfl
    rw [depth_of_ticks hticks, hclosings]
    cases hcloses : m.closes move with
    | false =>
      simp only [Bool.toNat_false]
      omega
    | true =>
      have hopen : closings m.stack < m.world.depth := hown hcloses
      simp only [Bool.toNat_true]
      omega
  · have hrestacks := closings_restacks (restacks_move move hwired hticks) h
    rw [not_or, Bool.not_eq_true, Bool.not_eq_true] at hticks
    rw [hticks.1, hticks.2]
    exact ⟨by omega, hrestacks⟩

/-- Assumes: the user ends no tick of the core. -/
theorem depth_run {moves : List (Move α β)} (hwired : m.Wired) (hown : Along EndsOwn moves m)
    (h : closings m.stack ≤ m.world.depth) :
    closings (m.run moves).stack ≤ (m.run moves).world.depth ∧
      (m.run moves).world.depth + closings m.stack + tally closes moves m =
        m.world.depth + closings (m.run moves).stack + tally opens moves m := by
  induction moves generalizing m with
  | nil => exact ⟨h, rfl⟩
  | cons move rest ih =>
    obtain ⟨hclosings, hmove⟩ := depth_move move hwired hown.1 h
    obtain ⟨hend, hrest⟩ := ih (wired_move move hwired) hown.2 hclosings
    refine ⟨hend, ?_⟩
    simp only [run_cons, tally]
    omega

end Machine

/-! ### Views that were spared, and views that were not -/

namespace Situation

variable {spared : Prop} {s s' : Situation α β} {past seen : List (ViewNotice α β)}

/-- Assumes: the view is spared. -/
theorem UpToDate.turn (h : s.UpToDate past) (hstaffed : s.Staffed) (hturn : s.Turn True seen s') :
    s'.UpToDate (past ++ seen) := by
  cases hturn with
  | step hstep => exact h.step hstaffed hstep
  | lose hloss =>
    refine h.steady ?_ .nil
    cases hloss with
    | @giveUp task tasks htasks hspared =>
      refine ⟨rfl, rfl, rfl, rfl, rfl, rfl, ?_⟩
      rw [htasks]
      cases task with
      | composing => exact absurd (hspared trivial) (by simp [Task.works])
      | _ => rfl
    | takeBack htasks hspared => exact absurd trivial hspared
    | unschedule hjobs => exact ⟨rfl, rfl, rfl, rfl, rfl, rfl, rfl⟩

end Situation

namespace Machine

variable {m : Machine α β} {view : ViewId} {moves : List (Move α β)}

/-- Assumes: no work on the news of the view was given up. -/
theorem guarded_and_upToDate {s : Situation α β} (hspared : Along (Spares view) moves {})
    (h : (run moves {}).situation view = some s) :
    s.Guarded ∧ s.UpToDate (historyOf view (history moves {})) := by
  refine @turns_invariant α β view {} s (Situation.Turn True) (Spares view) Grounded
    (fun s past ↦ s.Guarded ∧ s.UpToDate past) moves
    (fun m move hgrounded hspares ↦
      ⟨hgrounded.move move, turns_move move hgrounded fun _ ↦ hspares⟩)
    (fun s past seen s' hs hturn ↦ ?_) (fun s hfresh ↦ ?_) .start ⟨rfl, rfl⟩ hspared h
  · refine ⟨(hs.1.turn hturn).resolve_right fun hstuck ↦ hstuck.1 trivial, ?_⟩
    exact hs.2.turn hs.1.toStaffed hturn
  · exact ⟨hfresh.accounted.guarded, hfresh.upToDate⟩

/-- A move that does not spare a view gives up a frame that works for it. -/
theorem exists_of_not_spares {move : Move α β} (h : ¬ m.Spares view move) :
    ∃ message frame stack, m.move move = m.giveUp message ∧ m.stack = frame :: stack ∧
      frame.works view := by
  cases move with
  | request request => exact absurd trivial h
  | advance =>
    simp only [Spares, Classical.not_imp, Bool.not_eq_false] at h
    obtain ⟨hunwinding, hworks⟩ := h
    obtain ⟨message, hcontrol⟩ : ∃ message, m.control = .unwinding message := by
      unfold isUnwinding at hunwinding
      split at hunwinding
      case h_1 message hcontrol => exact ⟨message, hcontrol⟩
      case h_2 => contradiction
    cases hstack : m.stack with
    | nil => simp [hstack] at hworks
    | cons frame stack =>
      rw [hstack] at hworks
      refine ⟨message, frame, stack, ?_, rfl, hworks⟩
      simp only [Machine.move, advance, hcontrol]

/-- A view whose work is given up is stuck. -/
theorem stuck_giveUp {frame : Frame α β} {stack : List (Frame α β)} {s : Situation α β}
    (message : String) (hstack : m.stack = frame :: stack) (hworks : frame.works view)
    (h : m.situation view = some s) (hguarded : s.Guarded) :
    ∃ s', (m.giveUp message).situation view = some s' ∧ s'.Stuck := by
  have hpop {task : Task α β} (htask : frame.task? view = some task) (hjobs : frame.jobs view = 0)
      (hworker : task.works) : ∃ tasks,
        ({ m with stack } : Machine α β).situation view = some { s with tasks } ∧
          Situation.Stuck { s with tasks } := by
    obtain ⟨tasks, htasks, hpopped⟩ := situation_pop h hstack htask hjobs
    have hwork := hguarded.atWork htasks hworker
    exact ⟨tasks, hpopped, hwork.composing, hwork.workers⟩
  cases frame with
  | failing j errors =>
    obtain ⟨tasks, hpopped, hstuck⟩ := hpop (if_pos (by simpa using hworks)) rfl rfl
    simp only [giveUp, hstack]
    exact ⟨_, hpopped, hstuck⟩
  | settling j =>
    obtain ⟨tasks, hpopped, hstuck⟩ := hpop (if_pos (by simpa using hworks)) rfl rfl
    simp only [giveUp, hstack]
    exact ⟨_, hpopped, hstuck⟩
  | composing j =>
    obtain rfl : j = view := by simpa using hworks
    obtain ⟨tasks, hpopped, hstuck⟩ := hpop (if_pos rfl) rfl rfl
    simp only [giveUp, hstack]
    exact ⟨_, situation_modifyView _ hpopped, hstuck.composing, hstuck.workers⟩
  | announcing j event tickets | connecting j inputs => simp at hworks
  | _ => contradiction

/-- A view that is stuck composes nothing any more. -/
theorem Grounded.stuck_run {s : Situation α β} (hgrounded : m.Grounded) (moves : List (Move α β))
    (h : m.situation view = some s) (hstuck : s.Stuck) :
    ∃ s', (m.run moves).situation view = some s' ∧ s'.Stuck ∧
      ViewNotice.calls (historyOf view (m.history moves)) = [] ∧
      ViewNotice.compositions (historyOf view (m.history moves)) = [] := by
  have hturn : ∀ (s : Situation α β) past seen s',
      (s.Stuck ∧ ViewNotice.calls past = [] ∧ ViewNotice.compositions past = []) →
        s.Turn False seen s' → s'.Stuck ∧ ViewNotice.calls (past ++ seen) = [] ∧
          ViewNotice.compositions (past ++ seen) = [] := by
    intro s past seen s' ⟨hs, hcalls, hcompositions⟩ hturn
    obtain ⟨hs', hcalls', hcompositions'⟩ := hs.turn hturn
    refine ⟨hs', ?_, ?_⟩
    · rw [ViewNotice.calls_append, hcalls, hcalls', List.append_nil]
    · rw [ViewNotice.compositions_append, hcompositions, hcompositions', List.append_nil]
  have hstart : s.Stuck ∧ ViewNotice.calls ([] : List (ViewNotice α β)) = [] ∧
      ViewNotice.compositions ([] : List (ViewNotice α β)) = [] := ⟨hstuck, rfl, rfl⟩
  exact hgrounded.turn_run hturn moves h hstart

/-- Assumes: some work on the news of the view is given up in the run. -/
theorem stuck_of_not_spared (hgrounded : m.Grounded)
    (hstart : m.Unborn view ∨ ∃ s, m.situation view = some s ∧ s.Guarded)
    (hgivenUp : ¬ Along (Spares view) moves m) :
    ∃ s, (m.run moves).situation view = some s ∧ s.Stuck := by
  induction moves generalizing m with
  | nil => exact absurd trivial hgivenUp
  | cons move rest ih =>
    by_cases hspares : m.Spares view move
    case pos =>
      refine ih (hgrounded.move move) ?_ fun hrest ↦ hgivenUp ⟨hspares, hrest⟩
      rcases turns_move move hgrounded (fun _ : True ↦ hspares) with htakes | ⟨-, -, s, hs, hfresh⟩
      · rcases hstart with hunborn | ⟨s, hs, hguarded⟩
        · exact .inl (htakes.of_none hunborn).2
        · obtain ⟨s', hs', hturn⟩ := htakes.of_some s hs
          refine .inr ⟨s', hs', (hguarded.turn hturn).resolve_right fun hstuck ↦ ?_⟩
          exact hstuck.1 trivial
      · exact .inr ⟨s, hs, hfresh.accounted.guarded⟩
    case neg =>
      obtain ⟨message, frame, stack, hmove, hstack, hworks⟩ := exists_of_not_spares hspares
      rcases hstart with hunborn | ⟨s, hs, hguarded⟩
      · have htasks := hunborn.2
        rw [tasks, hstack, List.filterMap_cons] at htasks
        cases htask : frame.task? view with
        | none => simp [Frame.works, htask] at hworks
        | some task => simp [htask] at htasks
      · obtain ⟨s', hs', hstuck⟩ := stuck_giveUp message hstack hworks hs hguarded
        obtain ⟨s'', hs'', hstill, -⟩ := (hgrounded.move move).stuck_run rest (hmove ▸ hs') hstuck
        exact ⟨s'', hs'', hstill⟩

end Machine

/-! ### Views that start afresh -/

namespace Situation

variable {s s' : Situation α β} {since seen past : List (ViewNotice α β)}

/-- What the view knows, shows and has composed stays the same, and so do its listeners and what
they are about to hear. -/
structure Faithful (s s' : Situation α β) : Prop extends Steady s s' where
  listeners : s'.view.listeners = s.view.listeners
  announces : ∀ event tickets, .announcing event tickets ∈ s.tasks →
    .announcing event tickets ∈ s'.tasks

theorem Faithful.trans {s'' : Situation α β} (hfirst : s.Faithful s') (hlast : s'.Faithful s'') :
    s.Faithful s'' where
  toSteady := hfirst.toSteady.trans hlast.toSteady
  listeners := hlast.listeners.trans hfirst.listeners
  announces event tickets h := hlast.announces event tickets (hfirst.announces event tickets h)

/-- Assumes: the task that ends has nothing to announce, and does not wait for the composer. -/
theorem Faithful.pop {task : Task α β} {tasks : List (Task α β)} (htasks : s.tasks = task :: tasks)
    (hcomposing : task ≠ .composing)
    (hannounces : ∀ event tickets, task ≠ .announcing event tickets) :
    s.Faithful { s with tasks } := by
  refine ⟨⟨rfl, rfl, rfl, rfl, rfl, rfl, ?_⟩, rfl, fun event tickets h ↦ ?_⟩
  · rw [htasks]
    cases task with
    | composing => contradiction
    | _ => rfl
  · rw [htasks] at h
    exact (List.mem_cons.mp h).resolve_left fun hsame ↦ hannounces event tickets hsame.symm

theorem TakesOn.faithful (h : s.TakesOn s') : s.Faithful s' := by
  have hsteady := h.steady
  obtain ⟨failures, scheduled, composing, dirty, tasks, jobs, htasks, rfl⟩ := h
  refine ⟨hsteady, rfl, fun event tickets hmem ↦ ?_⟩
  rcases htasks with rfl | ⟨-, errors, rfl⟩
  · exact hmem
  · exact List.mem_cons_of_mem _ hmem

/-- The listener heard of the value, or is about to. -/
def Learns (s : Situation α β) (value : β) (seen : List (ViewNotice α β)) (ticket : Nat) : Prop :=
  .heard ticket (.ready value) ∈ seen ∨
    ∃ tickets, .announcing (.ready value) tickets ∈ s.tasks ∧ ticket ∈ tickets

/-- A value was composed, and all who listen to the view heard of the last one, or are about to. -/
def Spread (s : Situation α β) (since : List (ViewNotice α β)) : Prop :=
  ∃ first value waiting last, since = first ++ .composed value waiting :: last ∧
    ViewNotice.compositions last = [] ∧
    ∀ ticket ∈ s.view.listeners.tickets, s.Learns value last ticket

/-- Unless there is news, what the view shows was composed since, or the composing callback is at
work on it. -/
def Renewed (s : Situation α β) (since : List (ViewNotice α β)) : Prop :=
  s.view.disposed = false → s.view.stale = false → s.view.allLoaded →
    0 < Task.composers s.tasks ∨ s.Spread since

/-- What is seen leaves the view as it was, and those who learn of the last value go on to. Assumes:
a view that is up to date. -/
theorem Renewed.steady (h : s.Renewed since) (hupToDate : s.UpToDate (past ++ since))
    (hsteady : s.Steady s') (hseen : ViewNotice.compositions seen = [])
    (hlearns : ∀ value last, s.view.status = .ready value →
      (∀ ticket ∈ s.view.listeners.tickets, s.Learns value last ticket) →
        ∀ ticket ∈ s'.view.listeners.tickets, s'.Learns value (last ++ seen) ticket) :
    s'.Renewed (since ++ seen) := by
  intro hdisposed hstale hloaded
  rw [hsteady.disposed] at hdisposed
  rw [hsteady.stale] at hstale
  rw [View.allLoaded, hsteady.slots] at hloaded
  rw [hsteady.composers]
  rcases Nat.eq_zero_or_pos (Task.composers s.tasks) with hnone | hwaits
  case inr => exact .inl hwaits
  have hidle : ¬ 0 < Task.composers s.tasks := Nat.not_lt.mpr (Nat.le_of_eq hnone)
  obtain ⟨first, value, waiting, last, hsince, hlast, hlearn⟩ :=
    (h hdisposed hstale hloaded).resolve_left hidle
  obtain ⟨inputs, result, -, hstatus, -, hcomposition, -⟩ :=
    (hupToDate.shown hdisposed hstale hloaded).resolve_left hidle
  -- the value that was composed last is the one that the view shows
  have hresult : value = result := by
    have hcompositions : ViewNotice.compositions (past ++ since) =
        ViewNotice.compositions (past ++ first) ++ [(value, waiting)] := by
      rw [hsince, ← List.append_assoc, ViewNotice.compositions_append]
      exact congrArg (_ ++ (value, waiting) :: ·) hlast
    rw [hcompositions, List.getLast?_concat] at hcomposition
    exact Option.some.inj hcomposition
  refine .inr ⟨first, value, waiting, last ++ seen, ?_, ?_, ?_⟩
  · rw [hsince, List.append_assoc, List.cons_append]
  · rw [ViewNotice.compositions_append, hlast, hseen, List.append_nil]
  · exact hlearns value last (hresult ▸ hstatus) hlearn

theorem Renewed.faithful (h : s.Renewed since) (hupToDate : s.UpToDate (past ++ since))
    (hfaithful : s.Faithful s') : s'.Renewed since := by
  have hrenewed := @Renewed.steady α β s s' since [] past h hupToDate hfaithful.toSteady rfl
  rw [List.append_nil] at hrenewed
  refine hrenewed fun value last _ hlearn ticket hticket ↦ ?_
  rw [hfaithful.listeners] at hticket
  rw [List.append_nil]
  refine (hlearn ticket hticket).imp_right ?_
  rintro ⟨tickets, htask, hmem⟩
  exact ⟨tickets, hfaithful.announces _ _ htask, hmem⟩

theorem stale_hear_loaded (inTick : Bool) (slot : Nat) (value : α)
    (hdisposed : s.view.disposed = false) :
    (s.hear inTick slot (.loaded value)).view.stale := by
  unfold Situation.hear
  rw [if_neg (by simp [hdisposed]), (takesOn_requestCompose inTick _).steady.stale, modify,
    View.absorb_loaded value hdisposed]

theorem allLoaded_hear (inTick : Bool) {slot : Nat} {event : Event α}
    (hdisposed : s.view.disposed = false) (hslot : slot < s.view.slots.length)
    (hevent : event.isLoaded = false) : (s.hear inTick slot event).view.allLoaded = false := by
  have habsorbed : (s.modify (.absorb slot event)).view.allLoaded = false := by
    rw [modify, View.allLoaded, View.slots_absorb hdisposed]
    exact View.all_modify_hear hslot hevent
  unfold Situation.hear
  rw [if_neg (by simp [hdisposed])]
  cases event with
  | loaded value => contradiction
  | pending => exact habsorbed
  | failed error =>
    rw [View.allLoaded, (takesOn_flush _).steady.slots]
    exact habsorbed

theorem Renewed.hearing {slot : Nat} {event : Event α} (h : s.Renewed since)
    (hheard : s.Hearing slot event seen s') : s'.Renewed (since ++ seen) := by
  cases hheard with
  | deaf => simpa using h
  | heard inTick hslot hlive hlent =>
    intro hdisposed hstale hloaded
    cases hgone : s.view.disposed with
    | true =>
      obtain ⟨slots, -, habsorbed⟩ := View.absorb_of_disposed slot event hgone
      unfold Situation.hear at hdisposed
      rw [if_pos hgone, modify, habsorbed, hgone] at hdisposed
      contradiction
    | false =>
      -- a loaded value is news, and after any other event an input is not loaded
      cases event with
      | loaded value =>
        rw [stale_hear_loaded inTick slot value hgone] at hstale
        contradiction
      | pending | failed error =>
        rw [allLoaded_hear inTick hgone hslot rfl] at hloaded
        contradiction

theorem spread_becomeReady (value : β) (waiting : List SourceError) (s : Situation α β)
    (since : List (ViewNotice α β)) :
    (s.becomeReady value).Spread (since ++ [.composed value waiting]) :=
  ⟨since, value, waiting, [], rfl, rfl, fun _ hticket ↦
    .inr ⟨s.view.listeners.tickets, List.mem_cons_self, hticket⟩⟩

/-- Assumes: no composing callback is at work. -/
theorem Renewed.composeIfDue (h : s.Renewed since) (hupToDate : s.UpToDate (past ++ since)) :
    s.composeIfDue.Renewed (since ++ s.composeNotices) := by
  unfold Situation.composeIfDue composeNotices
  by_cases hdue : s.view.isDue
  · rw [if_pos hdue, if_pos hdue]
    have hcached : (s.modify fun v ↦ { v with stale := false }).view.cachedValues? =
        s.view.cachedValues? := rfl
    have hcomposer : (s.modify fun v ↦ { v with stale := false }).view.composer =
        s.view.composer := rfl
    simp only [hcached, hcomposer]
    cases hinputs : s.view.cachedValues? with
    | none =>
      intro hdisposed _ _
      rw [(takesOn_settle _).steady.disposed] at hdisposed
      rw [View.isDue, Bool.and_eq_true] at hdue
      obtain ⟨values, hvalues, -⟩ :=
        View.exists_values_of_shows (hupToDate.slots hdisposed) hdue.2
      rw [hinputs] at hvalues
      contradiction
    | some inputs =>
      cases s.view.composer with
      | direct compose =>
        intro _ _ _
        have hspread := spread_becomeReady (compose inputs) s.view.failures
          (s.modify fun v ↦ { v with stale := false }) (since ++ [.called inputs])
        rw [List.append_assoc] at hspread
        exact .inr hspread
      | callback key =>
        intro _ _ _
        refine .inl ?_
        rw [push, Task.composers, List.countP_cons]
        exact Nat.succ_pos _
  · rw [if_neg hdue, if_neg hdue, List.append_nil]
    exact h.faithful hupToDate (takesOn_settle s).faithful

/-- Somebody new is called with the value that the view shows. -/
theorem Renewed.register (h : s.Renewed since) (hupToDate : s.UpToDate (past ++ since)) (key : Nat) :
    (s.modify fun v ↦ { v with listeners := v.listeners.register key }).Renewed
      (since ++ s.view.status.event?.toList.map (.heard s.view.listeners.next)) := by
  refine h.steady hupToDate ⟨rfl, rfl, rfl, rfl, rfl, rfl, rfl⟩ ?_ ?_
  · cases s.view.status.event? <;> rfl
  · intro value last hstatus hlearn ticket hticket
    rw [modify, Registry.tickets_register, List.mem_append, List.mem_singleton] at hticket
    rcases hticket with hold | rfl
    · exact (hlearn ticket hold).imp_left fun hmem ↦ List.mem_append_left _ hmem
    · left
      rw [hstatus]
      exact List.mem_append_right _ (List.mem_singleton_self _)

/-- Whose turn it is in a pass has heard it then. -/
theorem Renewed.announce {event : ViewEvent β} {ticket : Nat} {tickets : List Nat}
    {tasks : List (Task α β)} (h : s.Renewed since) (hupToDate : s.UpToDate (past ++ since))
    (htasks : s.tasks = .announcing event (ticket :: tickets) :: tasks) :
    Renewed { s with tasks := .announcing event tickets :: tasks }
      (since ++ (s.view.listeners.find? ticket).toList.map fun _ ↦ .heard ticket event) := by
  refine h.steady hupToDate ⟨rfl, rfl, rfl, rfl, rfl, rfl, ?_⟩ ?_ ?_
  · rw [htasks]
    rfl
  · cases s.view.listeners.find? ticket <;> rfl
  · intro value last _ hlearn other hother
    rcases hlearn other hother with hheard | ⟨others, htask, hmem⟩
    · exact .inl (List.mem_append_left _ hheard)
    · rw [htasks, List.mem_cons] at htask
      rcases htask with hsame | htask
      · obtain ⟨rfl, rfl⟩ := Task.announcing.inj hsame
        rcases List.mem_cons.mp hmem with rfl | hlater
        · obtain ⟨key, hkey⟩ :=
            Option.isSome_iff_exists.mp (Registry.find?_isSome_of_mem_tickets hother)
          left
          rw [hkey]
          exact List.mem_append_right _ (List.mem_singleton_self _)
        · exact .inr ⟨tickets, List.mem_cons_self, hlater⟩
      · exact .inr ⟨others, List.mem_cons_of_mem _ htask, hmem⟩

/-- At the end of a pass it is nobody's turn. -/
theorem Renewed.announced {event : ViewEvent β} {tasks : List (Task α β)} (h : s.Renewed since)
    (hupToDate : s.UpToDate (past ++ since)) (htasks : s.tasks = .announcing event [] :: tasks) :
    Renewed { s with tasks } (since ++ []) := by
  refine h.steady hupToDate ⟨rfl, rfl, rfl, rfl, rfl, rfl, ?_⟩ rfl ?_
  · rw [htasks]
    rfl
  · intro value last _ hlearn ticket hticket
    rw [List.append_nil]
    refine (hlearn ticket hticket).imp_right ?_
    rintro ⟨tickets, htask, hmem⟩
    rw [htasks, List.mem_cons] at htask
    rcases htask with hsame | htask
    · obtain ⟨-, rfl⟩ := Task.announcing.inj hsame
      exact absurd hmem List.not_mem_nil
    · exact ⟨tickets, htask, hmem⟩

theorem Renewed.step (h : s.Renewed since) (hupToDate : s.UpToDate (past ++ since))
    (hstep : s.Step seen s') : s'.Renewed (since ++ seen) := by
  have hstill (hfaithful : s.Faithful s') : s'.Renewed (since ++ []) := by
    rw [List.append_nil]
    exact h.faithful hupToDate hfaithful
  cases hstep with
  | keep hkept =>
    obtain ⟨gone, inputs, owned, live, -, rfl⟩ := hkept
    refine h.steady hupToDate ⟨rfl, rfl, rfl, rfl, rfl, rfl, rfl⟩ rfl ?_
    intro value last _ hlearn ticket hticket
    rw [List.append_nil]
    exact hlearn ticket (Registry.mem_tickets_of_removeAll hticket)
  | register key => exact h.register hupToDate key
  | dispose => exact fun hdisposed ↦ absurd hdisposed (by simp [modify])
  | hear slot event hheard => exact h.hearing hheard
  | @connect input inputs tasks htasks registered event _ _ hheard =>
    refine Renewed.hearing ?_ hheard
    refine h.faithful hupToDate ((Faithful.pop htasks (by simp) (by simp)).trans ?_)
    exact ⟨⟨rfl, rfl, rfl, rfl, rfl, rfl, rfl⟩, rfl, fun _ _ hmem ↦ List.mem_cons_of_mem _ hmem⟩
  | connected inTick htasks =>
    exact hstill ((Faithful.pop htasks (by simp) (by simp)).trans
      (takesOn_requestCompose inTick _).faithful)
  | run hjobs hlive =>
    refine hstill (Faithful.trans ?_ (takesOn_flush _).faithful)
    exact ⟨⟨rfl, rfl, rfl, rfl, rfl, rfl, rfl⟩, rfl, fun _ _ hmem ↦ hmem⟩
  | skip hjobs hlive => exact hstill ⟨⟨rfl, rfl, rfl, rfl, rfl, rfl, rfl⟩, rfl, fun _ _ hmem ↦ hmem⟩
  | fail htasks =>
    refine hstill ((Faithful.pop htasks (by simp) (by simp)).trans ?_)
    exact ⟨⟨rfl, rfl, rfl, rfl, rfl, rfl, rfl⟩, rfl, fun _ _ hmem ↦
      List.mem_cons_of_mem _ (List.mem_cons_of_mem _ hmem)⟩
  | announce htasks => exact h.announce hupToDate htasks
  | announced htasks => exact h.announced hupToDate htasks
  | @compose tasks htasks =>
    have hfaithful : s.Faithful { s with tasks } := .pop htasks (by simp) (by simp)
    have hrest : Renewed { s with tasks } since := h.faithful hupToDate hfaithful
    have hcurrent : UpToDate { s with tasks } (past ++ since ++ []) :=
      hupToDate.steady hfaithful.toSteady .nil
    rw [List.append_nil] at hcurrent
    exact hrest.composeIfDue hcurrent
  | composed htasks value => exact fun _ _ _ ↦ .inr (spread_becomeReady value _ _ since)
  | settle htasks =>
    exact hstill ((Faithful.pop htasks (by simp) (by simp)).trans (takesOn_settle _).faithful)

/-! #### The next loaded event -/

theorem Guarded.loaded_hearing {slot : Nat} {event : Event α} (h : s.Guarded)
    (hheard : s.Hearing slot event seen s') (hloads : seen.any (·.loads)) :
    s'.Accounted ∧ s'.view.stale := by
  cases hheard with
  | deaf => contradiction
  | heard inTick hslot hlive hlent =>
    have hdisposed : s.view.disposed = false := by
      by_contra hgone
      rw [Bool.not_eq_false] at hgone
      simp [hgone] at hloads
    rw [if_neg (by simp [hdisposed])] at hloads
    cases event with
    | pending | failed error => simp [ViewNotice.loads, Event.isLoaded, Event.value?] at hloads
    | loaded value =>
      refine ⟨h.hear_loaded inTick slot value h.failures hdisposed, ?_⟩
      exact stale_hear_loaded inTick slot value hdisposed

/-- A loaded value that comes in will be composed, whatever was dropped before. -/
theorem Guarded.loaded (h : s.Guarded) (hstep : s.Step seen s') (hloads : seen.any (·.loads)) :
    s'.Accounted ∧ s'.view.stale := by
  cases hstep with
  | hear slot event hheard => exact h.loaded_hearing hheard hloads
  | connect input htasks registered event hheard =>
    exact (h.connecting htasks registered).loaded_hearing hheard hloads
  | register key =>
    cases hevent : s.view.status.event? <;> simp [hevent, ViewNotice.loads] at hloads
  | @announce event ticket tickets tasks htasks =>
    cases hfound : s.view.listeners.find? ticket <;> simp [hfound, ViewNotice.loads] at hloads
  | compose htasks =>
    unfold composeNotices at hloads
    split at hloads
    · split at hloads <;> simp [ViewNotice.loads] at hloads
    · contradiction
  | _ => simp [ViewNotice.loads] at hloads

end Situation

/-- The composer was called with these values, the view shows what came of that, and all who listen
to the view have heard of it. -/
def View.Renews (v : View α β) (values : List α) (since : List (ViewNotice α β)) : Prop :=
  ∃ first result waiting last, since = first ++ .composed result waiting :: last ∧
    ViewNotice.compositions last = [] ∧ (ViewNotice.calls since).getLast? = some values ∧
    v.status = .ready result ∧ (∀ compose, v.composer = .direct compose → result = compose values) ∧
    ∀ ticket ∈ v.listeners.tickets, .heard ticket (.ready result) ∈ last

namespace Situation

variable {s s' : Situation α β} {since seen past : List (ViewNotice α β)}

/-- The view is up to date, and from the next loaded event on it will see to its news. -/
structure Resumed (s : Situation α β) (past since : List (ViewNotice α β)) : Prop where
  guarded : s.Guarded
  upToDate : s.UpToDate (past ++ since)
  loaded : since.any (·.loads) → s.Accounted ∧ s.Renewed since

theorem Resumed.step (h : s.Resumed past since) (hstep : s.Step seen s') :
    s'.Resumed past (since ++ seen) where
  guarded := h.guarded.step hstep
  upToDate := by
    rw [← List.append_assoc]
    exact h.upToDate.step h.guarded.toStaffed hstep
  loaded hloads := by
    rw [List.any_append, Bool.or_eq_true] at hloads
    rcases hloads with hbefore | hnow
    · obtain ⟨haccounted, hrenewed⟩ := h.loaded hbefore
      exact ⟨haccounted.step hstep, hrenewed.step h.upToDate hstep⟩
    · obtain ⟨haccounted, hstale⟩ := h.guarded.loaded hstep hnow
      exact ⟨haccounted, fun _ hfresh _ ↦ absurd hstale (by simp [hfresh])⟩

/-- Assumes: nothing was under way at first and nothing is left to do, an input heard a loaded value
meanwhile, and these are the newest values. -/
theorem Resumed.renews {values : List α} (h : s.Resumed past since)
    (hanswered : (ViewNotice.calls past).length = (ViewNotice.compositions past).length)
    (hloads : since.any (·.loads)) (htasks : s.tasks = []) (hjobs : s.jobs = 0)
    (hlive : s.view.live) (hdisposed : s.view.disposed = false)
    (hvalues : (List.range s.view.slots.length).map (ViewNotice.newest · (past ++ since)) =
      values.map .loaded) : s.view.Renews values since := by
  obtain ⟨haccounted, hrenewed⟩ := h.loaded hloads
  obtain ⟨hcached, hstale, inputs, result, hinputs, hstatus, hcall, hcomposition, hdirect⟩ :=
    h.upToDate.shownLast haccounted htasks hjobs hlive hdisposed hvalues
  obtain rfl : values = inputs := Option.some.inj (hcached.symm.trans hinputs)
  obtain ⟨hloaded, -⟩ := View.allLoaded_and_cachedValues?_of_slots
    (View.slots_of_shows (h.upToDate.slots hdisposed) hvalues)
  have hidle : ¬ 0 < Task.composers s.tasks := by simp [htasks, Task.composers]
  obtain ⟨first, value, waiting, last, hsince, hlast, hlearn⟩ :=
    (hrenewed hdisposed hstale hloaded).resolve_left hidle
  have hcompositions : ViewNotice.compositions since =
      ViewNotice.compositions first ++ [(value, waiting)] := by
    rw [hsince, ViewNotice.compositions_append]
    exact congrArg (_ ++ (value, waiting) :: ·) hlast
  obtain rfl : value = result := by
    rw [ViewNotice.compositions_append, hcompositions, ← List.append_assoc,
      List.getLast?_concat] at hcomposition
    exact Option.some.inj hcomposition
  refine ⟨first, value, waiting, last, hsince, hlast, ?_, hstatus, hdirect, fun ticket hticket ↦ ?_⟩
  · have hpaired := h.upToDate.answered
    rw [ViewNotice.calls_append, ViewNotice.compositions_append, List.length_append,
      List.length_append, hanswered, htasks, hcompositions, List.length_append] at hpaired
    have hcalled : ViewNotice.calls since ≠ [] := by
      rintro hnone
      rw [hnone] at hpaired
      simp only [List.length_nil, List.length_singleton] at hpaired
      omega
    rw [← hcall, ViewNotice.calls_append, List.getLast?_append_of_ne_nil _ hcalled]
  · refine (hlearn ticket hticket).resolve_right ?_
    rintro ⟨tickets, htask, -⟩
    exact absurd htask (htasks ▸ List.not_mem_nil)

end Situation

namespace Machine

variable {α β : Type}

/-- After a run, nothing raises any more and an input of the view hears a loaded value. In the end
nothing is under way, no tick is open, these are the newest values of all inputs, and the view is
live and not disposed of. -/
structure Supplied (before after : List (Move α β)) (view : ViewId) (v : View α β)
    (values : List α) : Prop where
  calm : Along RaiseFree after (run before {})
  rest : (run (before ++ after) {}).AtRest
  depth : (run (before ++ after) {}).world.depth = 0
  found : (run (before ++ after) {}).world.views[view]? = some v
  live : v.live
  disposed : v.disposed = false
  loads : (historyOf view (history after (run before {}))).any (·.loads)
  newest : (List.range v.slots.length).map
    (ViewNotice.newest · (historyOf view (history (before ++ after) {}))) = values.map .loaded

variable {before after : List (Move α β)} {view : ViewId} {v : View α β} {values : List α}

/-- Assumes: a view that there was before, and no work on its news that was given up. -/
theorem Supplied.renews (h : Supplied before after view v values) (hrest : (run before {}).AtRest)
    (hview : view < (run before {}).world.views.length) (hspared : Along (Spares view) before {}) :
    v.Renews values (historyOf view (history after (run before {}))) := by
  have hstart := hrest.situation (List.getElem?_eq_getElem hview)
  obtain ⟨hguarded, hupToDate⟩ := guarded_and_upToDate hspared hstart
  have hsound : (run before {}).Sound := by
    obtain ⟨hattended, hwired⟩ := Grounded.start.run before
    obtain ⟨heard, hcontrol⟩ := exists_heard hrest.2
    exact ⟨hattended, hwired, by simp only [isUnwinding, hcontrol]⟩
  have hresumed : Situation.Resumed _ (historyOf view (history before {})) [] :=
    ⟨hguarded, (List.append_nil _).symm ▸ hupToDate, fun hloads ↦ by contradiction⟩
  have hstep : ∀ (s : Situation α β) since seen s',
      s.Resumed (historyOf view (history before {})) since → s.Step seen s' →
        s'.Resumed (historyOf view (history before {})) (since ++ seen) :=
    fun _ _ _ _ hs hstep ↦ hs.step hstep
  obtain ⟨s, hs, hend⟩ := hsound.situation_run hstep h.calm hstart hresumed
  rw [List.nil_append] at hend
  rw [← run_append] at hs
  have hjobs : (run (before ++ after) {}).jobs view = 0 := by
    simp [Machine.jobs, h.rest.1, putsOffInTicks_run _ h.depth]
  have hsame := h.rest.situation h.found
  rw [hjobs, hs] at hsame
  obtain rfl := Option.some.inj hsame
  refine hend.renews ?_ h.loads rfl rfl h.live h.disposed ?_
  · simpa [Task.composers] using hupToDate.answered
  · rw [← historyOf_append, ← history_append]
    exact h.newest

/-- The number of open ticks after calls that raised or not is what it was before, and the ticks
that the user opened meanwhile and did not end. From then on, whenever nothing raises and an input
of a view hears a loaded value, the view composes the newest values, shows what came of that and has
told everyone who listens to it: exactly if no work on its news was given up before, and otherwise
it composes nothing. Assumes: calls that have ended. -/
theorem recovers_iff (earlier calls : List (Move α β)) (hstart : (run earlier {}).AtRest)
    (hcaught : (run (earlier ++ calls) {}).AtRest) :
    let start := run earlier ({} : Machine α β)
    let caught := run (earlier ++ calls) ({} : Machine α β)
    (Along EndsOwn (earlier ++ calls) {} →
      caught.world.depth + tally closes calls start =
        start.world.depth + tally opens calls start) ∧
    ∀ (after : List (Move α β)) (view : ViewId) (v : View α β) (values : List α),
      view < caught.world.views.length → Supplied (earlier ++ calls) after view v values →
      let since := historyOf view (caught.history after)
      (v.Renews values since ↔ Along (Spares view) (earlier ++ calls) {}) ∧
        (v.Renews values since ∨ ViewNotice.calls since = []) := by
  intro start caught
  constructor
  case left =>
    intro hown
    obtain ⟨hbefore, hcalls⟩ := along_append.mp hown
    obtain ⟨hclosings, -⟩ := depth_run .start hbefore (Nat.zero_le _)
    obtain ⟨-, hdepth⟩ := depth_run (Grounded.start.run earlier).wired hcalls hclosings
    rw [← run_append, hstart.1, hcaught.1] at hdepth
    simpa [closings] using hdepth
  case right =>
    intro after view v values hview hsupplied since
    by_cases hspared : Along (Spares view) (earlier ++ calls) {}
    case pos =>
      have hrenews : v.Renews values since := hsupplied.renews hcaught hview hspared
      exact ⟨⟨fun _ ↦ hspared, fun _ ↦ hrenews⟩, .inl hrenews⟩
    case neg =>
      obtain ⟨s, hs, hstuck⟩ := stuck_of_not_spared .start (.inl ⟨rfl, rfl⟩) hspared
      obtain ⟨-, -, -, hcalls, -⟩ :=
        (Grounded.start.run (earlier ++ calls)).stuck_run after hs hstuck
      refine ⟨⟨fun hrenews ↦ ?_, fun h ↦ absurd h hspared⟩, .inr hcalls⟩
      obtain ⟨first, result, waiting, last, -, -, hcall, -⟩ := hrenews
      rw [hcalls] at hcall
      contradiction

/-- A view over two sources, with a listener each at the first source and at the view. The second
source has loaded. -/
def heardOutside : List (Move Nat (List Nat)) :=
  Move.script 12 [.newSource "a", .newSource "b", .build [0, 1] (.direct id),
    .subscribe (.source 0) 7, .finish, .subscribe (.view 0) 8, .emit 1 (.loaded 10)]

/-- In a tick, the listener at the first source raises after the view has heard the value. -/
def raisedInTick : List (Move Nat (List Nat)) :=
  Move.script 12 [.enterTick, .emit 0 (.loaded 1), .raise "boom", .abandonTick]

theorem recovers_raisedInTick :
    (run (heardOutside ++ raisedInTick) {}).world.depth = (run heardOutside {}).world.depth ∧
      ∃ v, (run (heardOutside ++ raisedInTick ++
          Move.script 12 [.emit 1 (.loaded 20), .finish]) {}).world.views[0]? = some v ∧
        v.Renews [1, 20] (historyOf 0 (history (Move.script 12 [.emit 1 (.loaded 20), .finish])
          (run (heardOutside ++ raisedInTick) {}))) := by
  obtain ⟨hdepth, hviews⟩ := recovers_iff heardOutside raisedInTick (by decide +kernel)
    (by decide +kernel)
  have hview : (run (heardOutside ++ raisedInTick ++
      Move.script 12 [.emit 1 (.loaded 20), .finish]) {}).world.views[0]? = some
        { label := "a+b", composer := .direct id, inputs := [(0, 0), (1, 0)],
          slots := [{ status := .loaded, cached := some 1 },
            { status := .loaded, cached := some 20 }],
          status := .ready [1, 20], listeners := { next := 1, entries := [(0, 8)] }, stale := false,
          emissions := 1, owned := true } := by cbv
  have hsupplied : Supplied (heardOutside ++ raisedInTick)
      (Move.script 12 [.emit 1 (.loaded 20), .finish]) 0 _ [1, 20] :=
    ⟨by decide +kernel, by decide +kernel, by decide +kernel, hview, rfl, rfl, by decide +kernel,
      by decide +kernel⟩
  obtain ⟨hrenews, -⟩ := hviews _ 0 _ [1, 20] (by decide +kernel) hsupplied
  have hended : tally closes raisedInTick (run heardOutside {}) =
      tally opens raisedInTick (run heardOutside {}) := by decide +kernel
  have hkept := hdepth (by decide +kernel)
  rw [hended] at hkept
  exact ⟨Nat.add_right_cancel hkept, _, hview, hrenews.mpr (by decide +kernel)⟩

/-- The listener of the view raises when it hears of the first value. -/
def raisedInPass : List (Move Nat (List Nat)) :=
  heardOutside ++ Move.script 12 [.emit 0 (.loaded 1), .finish, .raise "boom"]

/-- Nothing raises any more and the first source loads 2, but the view goes on showing what it
composed of 1. -/
theorem stuck_raisedInPass :
    (run raisedInPass {}).AtRest ∧ (run raisedInPass {}).world.depth = 0 ∧
    ∃ v, Supplied raisedInPass (Move.script 12 [.emit 0 (.loaded 2), .finish]) 0 v [2, 10] ∧
      v.status = .ready [1, 10] ∧
      ¬ v.Renews [2, 10] (historyOf 0 (history (Move.script 12 [.emit 0 (.loaded 2), .finish])
        (run raisedInPass {}))) := by
  have hview : (run (raisedInPass ++
      Move.script 12 [.emit 0 (.loaded 2), .finish]) {}).world.views[0]? = some
        { label := "a+b", composer := .direct id, inputs := [(0, 0), (1, 0)],
          slots := [{ status := .loaded, cached := some 2 },
            { status := .loaded, cached := some 10 }],
          status := .ready [1, 10], listeners := { next := 1, entries := [(0, 8)] },
          composing := true, dirty := true, emissions := 1, owned := true } := by cbv
  have hsupplied : Supplied raisedInPass (Move.script 12 [.emit 0 (.loaded 2), .finish]) 0 _
      [2, 10] :=
    ⟨by decide +kernel, by decide +kernel, by decide +kernel, hview, rfl, rfl, by decide +kernel,
      by decide +kernel⟩
  refine ⟨by decide +kernel, by decide +kernel, _, hsupplied, rfl, ?_⟩
  rintro ⟨first, result, waiting, last, -, -, hcall, -⟩
  have hnone : ViewNotice.calls (historyOf 0
      (history (Move.script 12 [.emit 0 (.loaded 2), .finish]) (run raisedInPass {}))) = [] := by
    decide +kernel
  rw [hnone] at hcall
  simp at hcall

end Machine

end LiveRecord.Flow
