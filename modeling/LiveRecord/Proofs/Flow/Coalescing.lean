import LiveRecord.Proofs.Flow.Currency
import LiveRecord.Proofs.Flow.Restacking
import LiveRecord.Proofs.Flow.Unwinding

/-!
# Compositions wait for the end of the tick

A view goes through its news at the end of a tick, or at once when one of its inputs has heard a
failure. If callbacks leave ticks as they found them, it is called to compose while a tick is open
exactly in the second case (`Machine.called_inTick_iff`). That takes a loaded value which is given
to the view while it answers to the failure: without one the view still lacks the value of the input
that failed. `Machine.called_recoveredInTick` is a run in which it happens.
-/

set_option autoImplicit false

namespace LiveRecord.Flow

variable {α β : Type}

/-! ### Callbacks and the ticks that they leave -/

/-- How many callbacks are at work. -/
def callers (stack : List (Frame α β)) : Nat := stack.countP (·.isCalling)

namespace Machine

/-- How many ticks were open when each of the callbacks at work was called, the innermost callback
first, when a move leads from one machine to the other. -/
def foundTicks (found : List Nat) (m m' : Machine α β) : List Nat :=
  if callers m.stack < callers m'.stack then m'.world.depth :: found
  else if callers m'.stack < callers m.stack then found.tail else found

/-- Every callback that ends leaves as many ticks open as it found. -/
def LeavesTicks : List Nat → List (Move α β) → Machine α β → Prop
  | _, [], _ => True
  | found, move :: rest, m =>
    (callers (m.move move).stack < callers m.stack → found.head? = some m.world.depth) ∧
      LeavesTicks (m.foundTicks found (m.move move)) rest (m.move move)

instance : (found : List Nat) → (moves : List (Move α β)) → (m : Machine α β) →
    Decidable (LeavesTicks found moves m)
  | _, [], _ => .isTrue trivial
  | found, move :: rest, m =>
    have := instDecidableLeavesTicks (m.foundTicks found (m.move move)) rest (m.move move)
    inferInstanceAs (Decidable ((callers (m.move move).stack < callers m.stack →
      found.head? = some m.world.depth) ∧ LeavesTicks _ rest (m.move move)))

end Machine

/-! ### How many ticks are open below a frame -/

/-- One of the inputs of the view has heard a failure, or is being connected, and the view is at
work because of it. -/
def Answers (view : ViewId) : List (Frame α β) → Bool
  | .holding other :: frame :: _ => other == view && frame.relays
  | _ => false

namespace Frame

/-- How many ticks were open when the frame was put on the stack. -/
def depthBelow (depth : Nat) (found : List Nat) : Frame α β → Nat
  | calling _ _ => found.headD 0
  | closing _ => depth - 1
  | _ => depth

def foundBelow (found : List Nat) : Frame α β → List Nat
  | calling _ _ => found.tail
  | _ => found

/-- The frame can be on top of these frames while so many ticks are open. -/
def Allowed (depth : Nat) (below : List (Frame α β)) : Frame α β → Prop
  | closing _ | delivering _ _ _ | connecting _ _ => 0 < depth
  | draining views _ => views = [] ∨ depth = 0
  | failing view _ | composing view | settling view => depth = 0 ∨ Answers view below
  | _ => True

end Frame

/-- Every frame can be where it is. -/
def Leveled : Nat → List Nat → List (Frame α β) → Prop
  | _, _, [] => True
  | depth, found, frame :: below =>
    frame.Allowed depth below ∧
      Leveled (frame.depthBelow depth found) (frame.foundBelow found) below

section Leveled

variable {depth : Nat} {found : List Nat} {frame next : Frame α β} {below new : List (Frame α β)}
  {view : ViewId}

theorem leveled_cons (hmark : frame.isMark = false) :
    Leveled depth found (frame :: below) ↔
      frame.Allowed depth below ∧ Leveled depth found below := by
  cases frame with
  | calling _ _ | closing _ => contradiction
  | _ => rfl

theorem leveled_append_hands (hhands : ∀ frame ∈ new, frame.hands) :
    Leveled depth found (new ++ below) ↔ Leveled depth found below := by
  induction new with
  | nil => rfl
  | cons frame rest ih =>
    have hframe := hhands frame List.mem_cons_self
    have hrest := ih fun other hother ↦ hhands other (List.mem_cons_of_mem _ hother)
    rw [List.cons_append]
    cases frame with
    | subscribing _ _ | building _ | feeding _ =>
      rw [leveled_cons rfl, hrest]
      exact ⟨And.right, fun h ↦ ⟨trivial, h⟩⟩
    | _ => simp [Frame.hands] at hframe

/-- When the user has control, the ticks that it opens and closes concern no frame. -/
theorem Leveled.atDepth (depth' : Nat) (h : Leveled depth found below)
    (hseat : below = [] ∨ ∃ call turn rest, below = .calling call turn :: rest) :
    Leveled depth' found below := by
  rcases hseat with rfl | ⟨call, turn, rest, rfl⟩
  · trivial
  · exact h

/-- What a view puts on the stack that goes through its news. Assumes: if it does so while a tick is
open, it answers to a failure. -/
theorem leveled_work (hnew : WorkFrames view new)
    (hbegins : new ≠ [] → depth = 0 ∨ Answers view below) (h : Leveled depth found below) :
    callers new = 0 ∧ Leveled depth found (new ++ below) ∨
      callers new = 1 ∧ Leveled depth (depth :: found) (new ++ below) := by
  cases hnew with
  | none => exact .inl ⟨rfl, h⟩
  | failing errors => exact .inl ⟨rfl, hbegins (by simp), h⟩
  | ready event tickets => exact .inl ⟨rfl, trivial, hbegins (by simp), h⟩
  | call key inputs => exact .inr ⟨rfl, trivial, hbegins (by simp), h⟩

theorem Frame.Next.relays (h : frame.Next next) : next.relays = frame.relays := by
  cases h <;> rfl

theorem Frame.Next.allowed (h : frame.Next next) (hallowed : frame.Allowed depth below) :
    next.Allowed depth below := by
  cases h with
  | draining view views answer => exact hallowed.imp_left fun hnone ↦ absurd hnone (by simp)
  | _ => exact hallowed

theorem callers_append (stack stack' : List (Frame α β)) :
    callers (stack ++ stack') = callers stack + callers stack' := List.countP_append

theorem callers_cons_calling (call : Call α β) (turn : Option (Target × Nat)) :
    callers (.calling call turn :: below) = callers below + 1 :=
  List.countP_cons_of_pos rfl

theorem callers_append_hands (hhands : ∀ frame ∈ new, frame.hands) :
    callers (new ++ below) = callers below :=
  countP_append_hands (fun _ hcalling ↦ Bool.or_eq_true_iff.mpr (.inl hcalling)) hhands

theorem callers_cons_of_not_mark (hmark : frame.isMark = false) :
    callers (frame :: below) = callers below :=
  countP_cons_of_not_mark (fun _ hcalling ↦ Bool.or_eq_true_iff.mpr (.inl hcalling)) hmark

end Leveled

namespace Machine

variable {m m' : Machine α β} {found : List Nat} {accepted : List (SourceId × Event α)}

theorem foundTicks_of_eq (h : callers m'.stack = callers m.stack) :
    m.foundTicks found m' = found := by
  simp [foundTicks, h]

theorem foundTicks_of_call (h : callers m'.stack = callers m.stack + 1) :
    m.foundTicks found m' = m'.world.depth :: found := by
  simp [foundTicks, h]

/-- A view begins to go through its news where it may. -/
theorem leveled_begins {view : ViewId} {frame next : Frame α β} {new below : List (Frame α β)}
    {world : World α β} (hnext : frame.Next next) (hnew : WorkFrames view new)
    (hbegins : new ≠ [] → world.Begins frame view) (hallowed : frame.Allowed world.depth below)
    (h : Leveled world.depth found (next :: below)) :
    callers new = 0 ∧ Leveled world.depth found (new ++ .holding view :: next :: below) ∨
      callers new = 1 ∧
        Leveled world.depth (world.depth :: found) (new ++ .holding view :: next :: below) := by
  refine leveled_work hnew (fun hsome ↦ ?_) ⟨trivial, h⟩
  rcases hbegins hsome with ⟨views, answer, rfl⟩ | hdepth | ⟨hrelays, -⟩
  · cases hnext with
    | draining view views answer => exact .inl (hallowed.resolve_left (by simp))
  · exact .inl hdepth
  · refine .inr ?_
    simp [Answers, hnext.relays, hrelays]

/-- Frames that hand something over come and go. -/
theorem leveled_swap {gone kept below : List (Frame α β)} (hgone : ∀ frame ∈ gone, frame.hands)
    (hkept : ∀ frame ∈ kept, frame.hands) (hstack : m.stack = gone ++ below)
    (hstack' : m'.stack = kept ++ below) (hunmoved : m.world.Unmoved m'.world)
    (h : Leveled m.world.depth found m.stack) :
    Leveled m'.world.depth (m.foundTicks found m') m'.stack := by
  have hsame : callers m'.stack = callers m.stack := by
    rw [hstack, hstack', callers_append_hands hgone, callers_append_hands hkept]
  rw [foundTicks_of_eq hsame, hunmoved.depth, hstack', leveled_append_hands hkept]
  rwa [hstack, leveled_append_hands hgone] at h

/-- A callback ends. Assumes: it leaves as many ticks open as it has found. -/
theorem leveled_ended {call : Call α β} {turn : Option (Target × Nat)}
    (hstack : m.stack = .calling call turn :: m'.stack) (hworld : m'.world = m.world)
    (hleaves : callers m'.stack < callers m.stack → found.head? = some m.world.depth)
    (h : Leveled m.world.depth found m.stack) :
    Leveled m'.world.depth (m.foundTicks found m') m'.stack := by
  have hfewer : callers m'.stack < callers m.stack := by
    rw [hstack, callers_cons_calling]
    exact Nat.lt_succ_self _
  have hfound : m.foundTicks found m' = found.tail := by
    rw [foundTicks, if_neg (Nat.not_lt_of_gt hfewer), if_pos hfewer]
  rw [hstack] at h
  obtain ⟨-, hbelow⟩ := h
  rw [hfound, hworld]
  rwa [Frame.depthBelow, List.headD_eq_head?_getD, hleaves hfewer] at hbelow

/-- A source publishes an event. -/
theorem leveled_emit {source : SourceId} {event : Event α} {answer : Answer α β}
    {gone kept below : List (Frame α β)} (hgone : ∀ frame ∈ gone, frame.hands)
    (hkept : ∀ frame ∈ kept, frame.hands) (hstack : m.stack = gone ++ below)
    (hstack' : m'.stack =
      .delivering source event (m.world.sourceTickets source) :: .closing answer :: (kept ++ below))
    (hworld : m'.world = publish source event m.world) (h : Leveled m.world.depth found m.stack) :
    Leveled m'.world.depth (m.foundTicks found m') m'.stack := by
  have hsame : callers m'.stack = callers m.stack := by
    rw [hstack, callers_append_hands hgone, hstack']
    exact callers_append_hands hkept
  rw [foundTicks_of_eq hsame, hworld, hstack']
  refine ⟨Nat.succ_pos _, Nat.succ_pos _, (leveled_append_hands hkept).mpr ?_⟩
  rwa [hstack, leveled_append_hands hgone] at h

/-- The frame on top starts what it has to do next. -/
theorem leveled_proceed {frame next : Frame α β} {above below : List (Frame α β)}
    (hnext : frame.Next next) (hstack : m.stack = frame :: below)
    (hstack' : m'.stack = above ++ next :: below) (habove : frame.Starts m'.world above)
    (hunmoved : m.world.Unmoved m'.world) (h : Leveled m.world.depth found m.stack) :
    Leveled m'.world.depth (m.foundTicks found m') m'.stack := by
  rw [hstack, leveled_cons hnext.isMark.1] at h
  have hrest : Leveled m.world.depth found (next :: below) :=
    (leveled_cons hnext.isMark.2).mpr ⟨hnext.allowed h.1, h.2⟩
  have hsame : callers (next :: below) = callers m.stack := by
    rw [hstack, callers_cons_of_not_mark hnext.isMark.1, callers_cons_of_not_mark hnext.isMark.2]
  cases habove with
  | nothing =>
    rw [foundTicks_of_eq (by rw [hstack', List.nil_append, hsame]), hunmoved.depth, hstack']
    exact hrest
  | call call =>
    rw [foundTicks_of_call (by rw [hstack', List.singleton_append, callers_cons_calling, hsame]),
      hunmoved.depth, hstack']
    exact ⟨trivial, hrest⟩
  | @work view new hnew hbegins =>
    rw [← hunmoved.depth] at h hrest
    rw [List.append_assoc, List.singleton_append] at hstack'
    have hcallers : callers m'.stack = callers new + callers m.stack := by
      rw [hstack', callers_append, ← hsame]
      rfl
    rcases leveled_begins hnext hnew hbegins h.1 hrest with ⟨hnone, hbegun⟩ | ⟨hone, hbegun⟩
    · rw [foundTicks_of_eq (by omega), hstack']
      exact hbegun
    · rw [foundTicks_of_call (by omega), hstack']
      exact hbegun

/-- A view goes on with its news. -/
theorem leveled_goesOn {view : ViewId} {frame : Frame α β} {new below : List (Frame α β)}
    (hframe : frame.Looks view) (hnew : WorkFrames view new) (hstack : m.stack = frame :: below)
    (hstack' : m'.stack = new ++ below) (hunmoved : m.world.Unmoved m'.world)
    (h : Leveled m.world.depth found m.stack) :
    Leveled m'.world.depth (m.foundTicks found m') m'.stack := by
  rw [hstack] at h
  have hallowed : m.world.depth = 0 ∨ Answers view below := by cases hframe <;> exact h.1
  have hbelow : Leveled m.world.depth found below := by cases hframe <;> exact h.2
  have hcallers : callers m'.stack = callers new + callers m.stack := by
    rw [hstack, hstack', callers_append]
    cases hframe <;> rfl
  rw [hunmoved.depth]
  rcases leveled_work hnew (fun _ ↦ hallowed) hbelow with ⟨hnone, hbegun⟩ | ⟨hone, hbegun⟩
  · rw [foundTicks_of_eq (by omega), hstack']
    exact hbegun
  · rw [foundTicks_of_call (by omega), hstack', hunmoved.depth]
    exact hbegun

/-- A new view is asked to compose, in the tick that it was built in. -/
theorem leveled_connected {view : ViewId} {new below : List (Frame α β)}
    (hbegins : new ≠ [] → m.world.depth = 0) (hstack : m.stack = .connecting view [] :: below)
    (hstack' : m'.stack = new ++ below) (hunmoved : m.world.Unmoved m'.world)
    (h : Leveled m.world.depth found m.stack) :
    Leveled m'.world.depth (m.foundTicks found m') m'.stack := by
  rw [hstack] at h
  obtain rfl : new = [] := by
    by_contra hsome
    exact absurd (hbegins hsome) (Nat.ne_of_gt h.1)
  rw [foundTicks_of_eq (by rw [hstack, hstack']; rfl), hunmoved.depth, hstack']
  exact h.2

theorem leveled_restacks (hrestacks : m.Restacks accepted m')
    (hleaves : callers m'.stack < callers m.stack → found.head? = some m.world.depth)
    (h : Leveled m.world.depth found m.stack) :
    Leveled m'.world.depth (m.foundTicks found m') m'.stack := by
  cases hrestacks with
  | swap hgone hkept hstack hstack' hunmoved =>
    exact leveled_swap hgone hkept hstack hstack' hunmoved h
  | call hkept hstack' hunmoved =>
    rw [foundTicks_of_call (by rw [hstack', callers_cons_calling, callers_append_hands hkept]),
      hunmoved.depth, hstack']
    exact ⟨trivial, (leveled_append_hands hkept).mpr h⟩
  | ended hstack hworld => exact leveled_ended hstack hworld hleaves h
  | emit _ hgone hkept hstack hstack' hworld =>
    exact leveled_emit hgone hkept hstack hstack' hworld h
  | build hstack' hunmoved =>
    rw [foundTicks_of_eq (by rw [hstack']; rfl), hunmoved.depth, hstack']
    exact ⟨Nat.succ_pos _, Nat.succ_pos _, trivial, h⟩
  | close hstack hstack' hviews hunmoved =>
    rw [hstack] at h
    rw [foundTicks_of_eq (by rw [hstack, hstack']; rfl), hstack']
    refine ⟨hviews, ?_⟩
    have hbelow := h.2
    rwa [Frame.depthBelow, ← World.depth_closeTick, ← hunmoved.depth] at hbelow
  | abandoned hunwinding hstack hunmoved =>
    rw [hstack] at h
    rw [foundTicks_of_eq (by rw [hstack]; rfl)]
    have hbelow := h.2
    rwa [Frame.depthBelow, ← World.depth_closeTick, ← hunmoved.depth] at hbelow
  | drop hstack hmark hdone hunmoved =>
    rw [hstack, leveled_cons hmark] at h
    rw [foundTicks_of_eq (by rw [hstack, callers_cons_of_not_mark hmark]), hunmoved.depth]
    exact h.2
  | proceed hnext hstack hstack' habove hunmoved =>
    exact leveled_proceed hnext hstack hstack' habove hunmoved h
  | fail hstack hstack' hunmoved =>
    rw [hstack] at h
    rw [foundTicks_of_eq (by rw [hstack, hstack']; rfl), hunmoved.depth, hstack']
    exact ⟨trivial, h⟩
  | work hframe hnew hstack hstack' hunmoved =>
    exact leveled_goesOn hframe hnew hstack hstack' hunmoved h
  | connected _ hbegins hstack hstack' hunmoved =>
    exact leveled_connected hbegins hstack hstack' hunmoved h

/-- The user opens and closes ticks where that concerns no frame. -/
theorem leveled_move (move : Move α β) (hwired : m.Wired) (hseated : m.Seated)
    (hleaves : callers (m.move move).stack < callers m.stack → found.head? = some m.world.depth)
    (h : Leveled m.world.depth found m.stack) :
    Leveled (m.move move).world.depth (m.foundTicks found (m.move move)) (m.move move).stack := by
  by_cases hopens : m.opens move
  · unfold opens at hopens
    split at hopens
    case h_2 => contradiction
    case h_1 =>
      have hsame : callers (m.serve .enterTick).stack = callers m.stack := rfl
      rw [Machine.move, submit_eq_serve hopens, foundTicks_of_eq hsame]
      exact h.atDepth _ (hseated hopens)
  by_cases hcloses : m.closes move
  · unfold closes at hcloses
    split at hcloses
    case h_1 =>
      rw [Machine.move, submit_eq_serve hcloses]
      obtain ⟨views, hviews, hscene, hstack⟩ := closeTick_spec .done m
      have hdepth : (m.closeTick .done).world.depth = m.world.depth - 1 :=
        congrArg Scene.depth hscene
      rw [serve, foundTicks_of_eq (by rw [hstack]; rfl), hstack]
      exact ⟨hviews.imp_right hdepth.trans, h.atDepth _ (hseated hcloses)⟩
    case h_2 =>
      have hsame : callers (m.serve .abandonTick).stack = callers m.stack := rfl
      rw [Machine.move, submit_eq_serve hcloses, foundTicks_of_eq hsame]
      exact h.atDepth _ (hseated hcloses)
    case h_3 => contradiction
  exact leveled_restacks (restacks_move move hwired (not_or.mpr ⟨hopens, hcloses⟩)) hleaves h

end Machine

/-! ### Views that answer to failures -/

/-- The view goes through its news because one of its inputs has heard a failure. -/
def Answering (view : ViewId) : List (Frame α β) → Bool
  | [] => false
  | frame :: below => frame.works view && Answers view below || Answering view below

section Answering

variable {view j : ViewId} {frame next : Frame α β} {below new : List (Frame α β)}

theorem answering_cons_of_idle (hidle : frame.works view = false) :
    Answering view (frame :: below) = Answering view below := by
  rw [Answering, hidle, Bool.false_and, Bool.false_or]

theorem answering_of_cons (h : Answering view below) : Answering view (frame :: below) := by
  rw [Answering, h, Bool.or_true]

theorem answering_append_hands (hhands : ∀ frame ∈ new, frame.hands) :
    Answering view (new ++ below) = Answering view below := by
  induction new with
  | nil => rfl
  | cons frame rest ih =>
    have hframe := hhands frame List.mem_cons_self
    have hrest := ih fun other hother ↦ hhands other (List.mem_cons_of_mem _ hother)
    rw [List.cons_append, answering_cons_of_idle, hrest]
    cases frame <;> first | rfl | simp [Frame.hands] at hframe

/-- Only a view itself goes through its news. -/
theorem Frame.Looks.eq_of_works (hframe : frame.Looks j) (h : frame.works view) : j = view := by
  cases hframe <;> simpa using h

theorem Frame.Next.works (h : frame.Next next) :
    frame.works view = false ∧ next.works view = false := by
  cases h <;> first | exact ⟨rfl, rfl⟩ | simp

/-- Where a view that goes through its news on top answers to a failure. -/
theorem answering_work (hnew : WorkFrames j new) (h : Answering view (new ++ below)) :
    Answering view below ∨ new ≠ [] ∧ j = view ∧ Answers view below := by
  have hlast : ∀ frame : Frame α β, (frame.works view → j = view) →
      Answering view (frame :: below) → Answering view below ∨ j = view ∧ Answers view below := by
    intro frame hworks hframe
    rw [Answering, Bool.or_eq_true, Bool.and_eq_true] at hframe
    exact hframe.symm.imp_right fun hanswers ↦ ⟨hworks hanswers.1, hanswers.2⟩
  cases hnew with
  | none => exact .inl h
  | failing errors =>
    refine (hlast (.failing j errors) (fun hworks ↦ ?_) h).imp_right fun hview ↦ ⟨by simp, hview⟩
    simpa using hworks
  | ready event tickets =>
    rw [List.cons_append, answering_cons_of_idle] at h
    · refine (hlast (.settling j) ?_ h).imp_right fun hview ↦ ⟨by simp, hview⟩
      exact Frame.Looks.settling.eq_of_works
    · simp
  | call key inputs =>
    rw [List.cons_append, answering_cons_of_idle rfl] at h
    refine (hlast (.composing j) ?_ h).imp_right fun hview ↦ ⟨by simp, hview⟩
    exact Frame.Looks.composing.eq_of_works

end Answering

namespace Machine

variable {m m' : Machine α β} {found : List Nat} {accepted : List (SourceId × Event α)}
  {view : ViewId}

theorem answering_proceed {frame next : Frame α β} {above below : List (Frame α β)}
    (hleveled : Leveled m.world.depth found m.stack) (hnext : frame.Next next)
    (hstack : m.stack = frame :: below)
    (hstack' : m'.stack = above ++ next :: below) (habove : frame.Starts m'.world above)
    (hunmoved : m.world.Unmoved m'.world) (h : Answering view m'.stack) :
    Answering view m.stack ∨ ∃ v, m'.world.views[view]? = some v ∧ v.allLoaded = false := by
  rw [hstack, leveled_cons hnext.isMark.1] at hleveled
  have hbelow : Answering view (next :: below) → Answering view m.stack := by
    rw [hstack, answering_cons_of_idle hnext.works.1, answering_cons_of_idle hnext.works.2]
    exact id
  rw [hstack'] at h
  cases habove with
  | nothing => exact .inl (hbelow h)
  | call call =>
    rw [List.singleton_append, answering_cons_of_idle rfl] at h
    exact .inl (hbelow h)
  | @work j new hnew hbegins =>
    rw [List.append_assoc, List.singleton_append] at h
    rcases answering_work hnew h with hrest | ⟨hsome, rfl, hanswers⟩
    · rw [answering_cons_of_idle rfl] at hrest
      exact .inl (hbelow hrest)
    · have hrelays : frame.relays := by
        rw [← hnext.relays]
        simpa [Answers] using hanswers
      rcases hbegins hsome with ⟨views, answer, rfl⟩ | hdepth | ⟨-, hview⟩
      · simp [Frame.relays] at hrelays
      · rw [hunmoved.depth] at hdepth
        cases hnext with
        | delivering | connecting => exact absurd hdepth (Nat.ne_of_gt hleveled.1)
        | _ => simp [Frame.relays] at hrelays
      · exact .inr hview

/-- A view begins to answer to a failure only when an input of it is not loaded. -/
theorem answering_restacks (hrestacks : m.Restacks accepted m')
    (hleveled : Leveled m.world.depth found m.stack) (h : Answering view m'.stack) :
    Answering view m.stack ∨ ∃ v, m'.world.views[view]? = some v ∧ v.allLoaded = false := by
  cases hrestacks with
  | swap hgone hkept hstack hstack' hunmoved =>
    rw [hstack', answering_append_hands hkept] at h
    rw [hstack, answering_append_hands hgone]
    exact .inl h
  | call hkept hstack' hunmoved =>
    rw [hstack', answering_cons_of_idle rfl, answering_append_hands hkept] at h
    exact .inl h
  | ended hstack hworld =>
    rw [hstack]
    exact .inl (answering_of_cons h)
  | emit hthere hgone hkept hstack hstack' hworld =>
    rw [hstack', answering_cons_of_idle rfl, answering_cons_of_idle rfl,
      answering_append_hands hkept] at h
    rw [hstack, answering_append_hands hgone]
    exact .inl h
  | build hstack' hunmoved =>
    rw [hstack', answering_cons_of_idle (by simp), answering_cons_of_idle rfl,
      answering_cons_of_idle rfl] at h
    exact .inl h
  | close hstack hstack' hviews hunmoved =>
    rw [hstack', answering_cons_of_idle rfl] at h
    rw [hstack]
    exact .inl (answering_of_cons h)
  | abandoned hunwinding hstack hunmoved =>
    rw [hstack]
    exact .inl (answering_of_cons h)
  | drop hstack hmark hdone hunmoved =>
    rw [hstack]
    exact .inl (answering_of_cons h)
  | proceed hnext hstack hstack' habove hunmoved =>
    exact answering_proceed hleveled hnext hstack hstack' habove hunmoved h
  | @fail _ view' error errors tickets below hstack hstack' hunmoved =>
    have hsame : Answering view (.failing view' errors :: below) =
        Answering view (.failing view' (error :: errors) :: below) := by simp [Answering]
    rw [hstack', answering_cons_of_idle (by simp), hsame, ← hstack] at h
    exact .inl h
  | @work _ j frame new below hframe hnew hstack hstack' hunmoved =>
    rw [hstack'] at h
    rw [hstack]
    rcases answering_work hnew h with hrest | ⟨-, rfl, hanswers⟩
    · exact .inl (answering_of_cons hrest)
    · refine .inl ?_
      rw [Answering, hanswers]
      cases hframe <;> simp
  | @connected _ j new below hnew hbegins hstack hstack' hunmoved =>
    rw [hstack] at hleveled
    obtain rfl : new = [] := by
      by_contra hsome
      exact absurd (hbegins hsome) (Nat.ne_of_gt hleveled.1)
    rw [hstack'] at h
    rw [hstack]
    exact .inl (answering_of_cons h)

end Machine

/-! ### Inputs that are not loaded -/

namespace Situation

variable {s s' : Situation α β} {seen : List (ViewNotice α β)}

/-- Assumes: no input was given a loaded value. -/
theorem Turn.unloaded {spared : Prop} (hturn : s.Turn spared seen s')
    (hseen : ∀ notice ∈ seen, notice.loads = false) (h : s.view.allLoaded = false) :
    s'.view.allLoaded = false := by
  rcases hturn.slots with hsame | ⟨slot, event, hslot, habsorbed, hgiven⟩
  · rwa [View.allLoaded, hsame]
  · rw [View.allLoaded, habsorbed]
    cases hdisposed : s.view.disposed with
    | true =>
      have hstatus := @View.map_status_absorb α β s.view slot event hdisposed
      rwa [← View.allLoaded, View.allLoaded_eq, hstatus, ← View.allLoaded_eq]
    | false =>
      rw [hgiven, if_neg (by simp [hdisposed])] at hseen
      rw [View.slots_absorb hdisposed]
      exact View.all_modify_hear hslot (hseen _ (List.mem_singleton_self _))

end Situation

namespace Machine

variable {m m' : Machine α β} {found : List Nat} {view : ViewId}

/-- While the view answers to a failure, no input of it is given a loaded value. -/
def Unanswered (view : ViewId) (m : Machine α β) (move : Move α β) : Prop :=
  Answering view m.stack → ∀ notice ∈ historyOf view (m.notices move), notice.loads = false

instance (view : ViewId) (m : Machine α β) (move : Move α β) :
    Decidable (m.Unanswered view move) := by
  unfold Unanswered
  infer_instance

/-- A view that answers to a failure lacks the value of an input. -/
def Lacking (view : ViewId) (m : Machine α β) : Prop :=
  Answering view m.stack → ∃ v, m.world.views[view]? = some v ∧ v.allLoaded = false

theorem lacking_move (move : Move α β) (hgrounded : m.Grounded)
    (hleveled : Leveled m.world.depth found m.stack) (hunanswered : m.Unanswered view move)
    (h : m.Lacking view) : (m.move move).Lacking view := by
  intro hanswering
  have hstill : Answering view m.stack →
      ∃ v, (m.move move).world.views[view]? = some v ∧ v.allLoaded = false := by
    intro hbefore
    obtain ⟨v, hview, hunloaded⟩ := h hbefore
    rcases @turns_move α β view m False move hgrounded False.elim with htakes | ⟨hunborn, -⟩
    · obtain ⟨s', hs', hturn⟩ := htakes.of_some _ (situation_of_view hview)
      exact ⟨s'.view, view_of_situation hs', hturn.unloaded (hunanswered hbefore) hunloaded⟩
    · rw [hunborn.1] at hview
      contradiction
  by_cases hticks : m.opens move ∨ m.closes move
  · obtain ⟨-, -, hsame | ⟨views, hdraining⟩⟩ := ticks_move hticks
    · exact hstill (hsame ▸ hanswering)
    · rw [hdraining, answering_cons_of_idle rfl] at hanswering
      exact hstill hanswering
  have hrestacks := restacks_move move hgrounded.wired hticks
  exact (answering_restacks hrestacks hleveled hanswering).elim hstill id

/-! ### Every run -/

/-- What holds of the stack where callbacks leave ticks as they found them. -/
structure Level (found : List Nat) (m : Machine α β) : Prop where
  grounded : m.Grounded
  seated : m.Seated
  leveled : Leveled m.world.depth found m.stack

theorem Level.start : Level [] ({} : Machine α β) := ⟨.start, fun _ ↦ .inl rfl, trivial⟩

theorem Level.move {move : Move α β} (h : m.Level found)
    (hleaves : callers (m.move move).stack < callers m.stack → found.head? = some m.world.depth) :
    (m.move move).Level (m.foundTicks found (m.move move)) :=
  ⟨h.grounded.move move, seated_move move h.seated,
    leveled_move move h.grounded.wired h.seated hleaves h.leveled⟩

theorem Level.run {moves : List (Move α β)} (h : m.Level found)
    (hleaves : LeavesTicks found moves m) :
    ∃ found', (m.run moves).Level found' ∧
      (m.Lacking view → Along (Unanswered view) moves m → (m.run moves).Lacking view) := by
  induction moves generalizing m found with
  | nil => exact ⟨found, h, fun hlacking _ ↦ hlacking⟩
  | cons move rest ih =>
    obtain ⟨found', hlevel, hlacking⟩ := ih (h.move hleaves.1) hleaves.2
    refine ⟨found', hlevel, fun hbefore hunanswered ↦ hlacking ?_ hunanswered.2⟩
    exact lacking_move move h.grounded h.leveled hunanswered.1 hbefore

/-- A view is called to compose while a tick is open exactly when it went to work because an input
heard a failure, and never if it is given no loaded value while it answers to one. Assumes: a run in
which callbacks leave ticks as they found them. -/
theorem called_inTick_iff (moves : List (Move α β)) (move : Move α β) (view : ViewId)
    (values : List α) (hleaves : LeavesTicks [] moves {})
    (hcalled : .ofView view (.called values) ∈ (run moves {}).notices move) :
    ((run moves {}).world.inTick ↔ Answers view (run moves {}).stack.tail) ∧
      (Along (Unanswered view) moves {} → (run moves {}).world.inTick = false) := by
  obtain ⟨⟨below, hstack⟩, v, hview, hdue, -⟩ := exists_failing_of_called hcalled
  obtain ⟨found, hlevel, hlacking⟩ := @Level.run α β {} [] view moves .start hleaves
  have hleveled := hlevel.leveled
  rw [hstack, leveled_cons rfl] at hleveled
  obtain ⟨hallowed, hbelow⟩ := hleveled
  have hiff : (run moves {}).world.inTick ↔ Answers view (run moves {}).stack.tail := by
    rw [World.inTick, decide_eq_true_iff, hstack, List.tail_cons]
    constructor
    · exact fun hopen ↦ hallowed.resolve_left (Nat.ne_of_gt hopen)
    · intro hanswers
      unfold Answers at hanswers
      split at hanswers
      case h_2 => contradiction
      case h_1 other frame rest =>
        rw [Bool.and_eq_true] at hanswers
        rw [leveled_cons rfl] at hbelow
        have hframe := hbelow.2.1
        cases frame with
        | delivering | connecting => exact hframe
        | _ => simp [Frame.relays] at hanswers
  refine ⟨hiff, fun hunanswered ↦ Bool.eq_false_iff.mpr fun hopen ↦ ?_⟩
  have hanswering : Answering view (run moves {}).stack := by
    have hanswers := hiff.mp hopen
    rw [hstack, List.tail_cons] at hanswers
    simp [hstack, Answering, hanswers]
  obtain ⟨w, hw, hunloaded⟩ := hlacking (fun h ↦ by simp [Answering] at h) hunanswered hanswering
  obtain rfl := Option.some.inj (hview.symm.trans hw)
  rw [View.isDue, Bool.and_eq_true, hunloaded] at hdue
  exact absurd hdue.2 (by simp)

/-- A view over two sources that is listened to, when the second source has loaded and the first one
fails in a tick. -/
def failedInTick : List (Move Nat (List Nat)) :=
  Move.script 14 [.newSource "a", .newSource "b", .build [0, 1] (.direct id),
    .subscribe (.view 0) 7, .emit 1 (.loaded 10), .enterTick, .emit 0 (.failed ⟨"a", "lost"⟩)]

/-- The sources load when the listener has heard of the failure. The run ends where the composer is
called next. -/
def recoveredAfterwards : List (Move Nat (List Nat)) :=
  failedInTick ++ Move.script 14 [.finish, .emit 0 (.loaded 2), .emit 1 (.loaded 20)] ++
    Move.script 1 [.leaveTick]

theorem called_recoveredAfterwards :
    LeavesTicks [] recoveredAfterwards {} ∧ Along (Unanswered 0) recoveredAfterwards {} ∧
      .ofView 0 (.called [2, 20]) ∈ (run recoveredAfterwards {}).notices .advance ∧
      (run recoveredAfterwards {}).world.inTick = false := by
  have hleaves : LeavesTicks [] recoveredAfterwards {} := by decide +kernel
  have hunanswered : Along (Unanswered 0) recoveredAfterwards {} := by decide +kernel
  have hcalled : .ofView 0 (.called [2, 20]) ∈ (run recoveredAfterwards {}).notices .advance := by
    decide +kernel
  exact ⟨hleaves, hunanswered, hcalled,
    (called_inTick_iff recoveredAfterwards .advance 0 [2, 20] hleaves hcalled).2 hunanswered⟩

/-- The listener loads the first source when it hears of the failure. The run ends where the
composer is called next. -/
def recoveredInTick : List (Move Nat (List Nat)) :=
  failedInTick ++ Move.script 14 [.emit 0 (.loaded 2)] ++ Move.script 1 [.finish]

theorem called_recoveredInTick :
    LeavesTicks [] recoveredInTick {} ∧
      .ofView 0 (.called [2, 10]) ∈ (run recoveredInTick {}).notices .advance ∧
      (run recoveredInTick {}).world.inTick := by
  decide +kernel

end Machine

end LiveRecord.Flow
