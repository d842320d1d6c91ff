import LiveRecord.Proofs.Flow.Restacking
import LiveRecord.Proofs.Flow.Unwinding

/-!
# Compositions that are put off

While a tick is open, compositions are put off into one queue. When the outermost tick ends the
whole queue becomes a batch, and the batches that are at work are on the stack, the innermost first.
Every move puts off at most one composition, or begins, continues, ends or gives up one batch
(`Machine.posts_move`).
-/

set_option autoImplicit false

namespace LiveRecord.Flow

variable {α β : Type}

/-- What becomes of compositions that are put off. -/
inductive Posting
  /-- One more waits, at the end of the queue. -/
  | deferred (view : ViewId)
  /-- A batch begins with these. -/
  | begun (views : List ViewId)
  /-- The next one of the innermost batch is started. -/
  | started (view : ViewId)
  /-- The innermost batch is through. -/
  | ended
  /-- What waits in the queue is dropped. -/
  | dropped (views : List ViewId)
  /-- What is left of the innermost batch is dropped. -/
  | broken (views : List ViewId)

/-- What a batch has left. -/
def Frame.batch? : Frame α β → Option (List ViewId)
  | draining views _ => some views
  | _ => none

/-- What is left of the batches at work, the innermost first. -/
def batchesOf (stack : List (Frame α β)) : List (List ViewId) := stack.filterMap (·.batch?)

theorem batchesOf_draining (views : List ViewId) (answer : Answer α β) (below : List (Frame α β)) :
    batchesOf (.draining views answer :: below) = views :: batchesOf below := rfl

theorem WorkFrames.batchesOf {view : ViewId} {new stack : List (Frame α β)}
    (h : WorkFrames view new) : batchesOf (new ++ stack) = batchesOf stack := by
  cases h <;> rfl

namespace World

variable {world : World α β}

/-- The outermost tick takes everything from the queue, and an inner one nothing. -/
theorem deferred_closeTick (world : World α β) :
    world.deferred = world.closeTick.1 ++ world.closeTick.2.deferred := by
  unfold closeTick
  dsimp only
  split
  · exact (List.append_nil _).symm
  · rfl

/-- Assumes: something was put off. -/
theorem closeTick_of_ne_nil (h : world.closeTick.1 ≠ []) :
    world.depth - 1 = 0 ∧ world.closeTick.1 = world.deferred := by
  unfold closeTick at h ⊢
  dsimp only at h ⊢
  split at h
  case isTrue hlast => exact ⟨hlast, by rw [if_pos hlast]⟩
  case isFalse => exact absurd rfl h

theorem deferred_abandonTick (world : World α β) :
    world.abandonTick.deferred = world.closeTick.2.deferred :=
  deferred_unschedule _ _

theorem depth_abandonTick (world : World α β) : world.abandonTick.depth = world.depth - 1 :=
  ((Unmoved.unschedule _ _).depth).trans world.depth_closeTick

theorem deferred_disconnect (view : ViewId) (world : World α β) :
    (world.disconnect view).deferred = world.deferred := by
  unfold disconnect
  split
  · rfl
  · exact deferred_foldl_unregister _ world

end World

namespace Machine

variable {m m' m'' : Machine α β} {view : ViewId}

/-- The compositions that wait: in the queue, and in the batches at work. -/
def waiting (m : Machine α β) : List ViewId := m.world.deferred ++ (batchesOf m.stack).flatten

/-- How many compositions of a view wait can be read off from the queue and the batches. -/
theorem jobs_eq_count (view : ViewId) (m : Machine α β) : m.jobs view = m.waiting.count view := by
  have hbatches (stack : List (Frame α β)) :
      (stack.map (·.jobs view)).sum = (batchesOf stack).flatten.count view := by
    induction stack with
    | nil => rfl
    | cons frame below ih =>
      rw [List.map_cons, List.sum_cons, ih]
      cases frame with
      | draining views answer =>
        simp [batchesOf, Frame.batch?, Frame.jobs, List.count_append]
      | _ => simp [batchesOf, Frame.batch?, Frame.jobs]
  rw [jobs, waiting, List.count_append, hbatches]

/-- No composition is put off, started or dropped. -/
def Idles (m m' : Machine α β) : Prop :=
  m'.world.deferred = m.world.deferred ∧ batchesOf m'.stack = batchesOf m.stack

/-- A composition of the view is put off. -/
structure Defers (view : ViewId) (m m' : Machine α β) : Prop where
  inTick : 0 < m.world.depth
  there : ∃ v, m.world.views[view]? = some v
  queue : m'.world.deferred = m.world.deferred ++ [view]
  batches : batchesOf m'.stack = batchesOf m.stack

theorem Idles.trans (hfirst : m.Idles m') (hlast : m'.Idles m'') : m.Idles m'' :=
  ⟨hlast.1.trans hfirst.1, hlast.2.trans hfirst.2⟩

/-- Assumes: the view goes through its news on top of the stack. -/
theorem Idles.of_work (hqueue : m'.world.deferred = m.world.deferred)
    (hwork : ∃ new, WorkFrames view new ∧ m'.stack = new ++ m.stack) : m.Idles m' := by
  obtain ⟨new, hnew, hstack⟩ := hwork
  exact ⟨hqueue, hstack ▸ hnew.batchesOf⟩

/-- What one move does to the compositions that are put off. -/
inductive Posts (m : Machine α β) (move : Move α β) : List Posting → Machine α β → Prop
  | idle {m' : Machine α β} (h : m.Idles m') : Posts m move [] m'
  | deferred {m' : Machine α β} {view : ViewId} (h : m.Defers view m') :
      Posts m move [.deferred view] m'
  | begun {m' : Machine α β} {answer : Answer α β} {below : List (Frame α β)}
      (hcalm : m.isUnwinding = false) (hreturning : ∃ returned, m'.control = .returning returned)
      (hstack' : m'.stack = .draining m.world.closeTick.1 answer :: below)
      (hbelow : batchesOf below = batchesOf m.stack) (hworld : m'.world = m.world.closeTick.2) :
      Posts m move [.begun m.world.closeTick.1] m'
  | started {m' : Machine α β} {view : ViewId} {views : List ViewId} {answer : Answer α β}
      {below : List (Frame α β)} (hstack : m.stack = .draining (view :: views) answer :: below)
      (hqueue : m'.world.deferred = m.world.deferred)
      (hbatches : batchesOf m'.stack = views :: batchesOf below) : Posts m move [.started view] m'
  | ended {m' : Machine α β} {answer : Answer α β}
      (hstack : m.stack = .draining [] answer :: m'.stack)
      (hworld : m'.world = m.world) : Posts m move [.ended] m'
  | dropped {m' : Machine α β} (hraised : m.isUnwinding ∨ move.abandons)
      (hbatches : batchesOf m'.stack = batchesOf m.stack)
      (hworld : m'.world = m.world.abandonTick) : Posts m move [.dropped m.world.closeTick.1] m'
  | broken {m' : Machine α β} {views : List ViewId} {answer : Answer α β}
      (hunwinding : m.isUnwinding) (hstack : m.stack = .draining views answer :: m'.stack)
      (hqueue : m'.world.deferred = m.world.deferred) : Posts m move [.broken views] m'

/-- What becomes of compositions that are put off, in one move. -/
def postings (move : Move α β) (m : Machine α β) : List Posting :=
  match move, m.control with
  | .advance, .returning answer =>
    match m.stack with
    | .closing _ :: _ => [.begun m.world.closeTick.1]
    | .draining [] _ :: _ => [.ended]
    | .draining (view :: _) _ :: _ => [.started view]
    | _ => ((m.resume answer).world.deferred.drop m.world.deferred.length).map .deferred
  | .advance, .unwinding _ =>
    match m.stack with
    | .closing _ :: _ => [.dropped m.world.closeTick.1]
    | .draining views _ :: _ => [.broken views]
    | _ => []
  | .request .leaveTick, .user _ => [.begun m.world.closeTick.1]
  | .request .abandonTick, .user _ => [.dropped m.world.closeTick.1]
  | _, _ => []

/-! ### The operations of the core -/

theorem deferred_workOff (view : ViewId) (m : Machine α β) :
    (m.workOff view).world.deferred = m.world.deferred := by
  unfold workOff
  split
  · rfl
  · split <;> rfl

theorem deferred_flush (view : ViewId) (m : Machine α β) :
    (m.flush view).world.deferred = m.world.deferred := by
  unfold flush
  split
  · rfl
  · split
    · rfl
    · exact deferred_workOff view _

theorem deferred_settle (view : ViewId) (m : Machine α β) :
    (m.settle view).world.deferred = m.world.deferred := by
  unfold settle
  split
  · rfl
  · split
    · exact deferred_workOff view m
    · rfl

theorem deferred_composeIfDue (view : ViewId) (m : Machine α β) :
    (m.composeIfDue view).world.deferred = m.world.deferred := by
  unfold composeIfDue
  split
  · rfl
  · split
    · dsimp only
      split
      · exact deferred_settle view _
      · rfl
      · rfl
    · exact deferred_settle view m

theorem idles_flush (view : ViewId) (m : Machine α β) : m.Idles (m.flush view) :=
  .of_work (deferred_flush view m) (flush_stack view m)

theorem idles_settle (view : ViewId) (m : Machine α β) : m.Idles (m.settle view) :=
  .of_work (deferred_settle view m) (settle_stack view m)

theorem idles_composeIfDue (view : ViewId) (m : Machine α β) : m.Idles (m.composeIfDue view) :=
  .of_work (deferred_composeIfDue view m) (composeIfDue_stack view m)

theorem idles_release (view : ViewId) (m : Machine α β) : m.Idles (m.release view) := by
  unfold release
  split
  · split
    · exact ⟨rfl, rfl⟩
    · exact ⟨World.deferred_disconnect view m.world, rfl⟩
  · exact ⟨rfl, rfl⟩

theorem idles_dropView (view : ViewId) (m : Machine α β) : m.Idles (m.dropView view) := by
  have hdropped : m.Idles (m.withWorld (.modifyView view fun v ↦ { v with owned := false })) :=
    ⟨rfl, rfl⟩
  exact hdropped.trans (idles_release view _)

theorem idles_emit (source : SourceId) (event : Event α) (m : Machine α β) :
    m.Idles (m.emit source event) := by
  unfold emit
  split
  · exact ⟨rfl, rfl⟩
  · split <;> exact ⟨rfl, rfl⟩

theorem idles_feed (feed : Feed α) (m : Machine α β) : m.Idles (m.feed feed) := by
  unfold Machine.feed
  split
  · exact ⟨rfl, rfl⟩
  · next rest _ =>
    have hpushed : m.Idles (m.push (.feeding rest)) := ⟨rfl, rfl⟩
    exact hpushed.trans (idles_emit _ _ _)

theorem idles_or_defers_requestCompose (view : ViewId) (m : Machine α β) :
    m.Idles (m.requestCompose view) ∨ m.Defers view (m.requestCompose view) := by
  unfold requestCompose
  split
  case h_1 => exact .inl ⟨rfl, rfl⟩
  case h_2 v hview =>
    split
    case isTrue => exact .inl (idles_flush view m)
    case isFalse htick =>
      split
      · exact .inl ⟨rfl, rfl⟩
      · exact .inr ⟨by simpa [World.inTick, Nat.pos_iff_ne_zero] using htick, ⟨v, hview⟩, rfl, rfl⟩

theorem idles_or_defers_hear (view : ViewId) (slot : Nat) (event : Event α) (m : Machine α β) :
    m.Idles (m.hear view slot event) ∨ m.Defers view (m.hear view slot event) := by
  have habsorbed : m.Idles
      ((m.push (.holding view)).withWorld (.modifyView view (.absorb slot event))) := ⟨rfl, rfl⟩
  have hhears := m.hears view slot event
  generalize m.hear view slot event = m' at hhears ⊢
  cases hhears with
  | deaf | lent | quiet => exact .inl ⟨rfl, rfl⟩
  | @loaded v value hview =>
    obtain ⟨hthere, -⟩ := Option.filter_eq_some_iff.mp hview
    refine (idles_or_defers_requestCompose view _).imp habsorbed.trans fun hdefers ↦ ?_
    exact ⟨hdefers.inTick, ⟨v, hthere⟩, hdefers.queue, hdefers.batches⟩
  | failed => exact .inl (habsorbed.trans (idles_flush view _))

theorem idles_or_defers_connect (view : ViewId) (source : SourceId) (slot : Nat)
    (m : Machine α β) :
    m.Idles (m.connect view source slot) ∨ m.Defers view (m.connect view source slot) := by
  unfold connect
  split
  case h_1 => exact .inl ⟨rfl, rfl⟩
  case h_2 s hs =>
    refine (idles_or_defers_hear view slot s.current _).imp id fun hdefers ↦ ?_
    obtain ⟨v', hv'⟩ := hdefers.there
    simp only [withWorld, World.modifyView, List.getElem?_modify_eq] at hv'
    obtain ⟨v, hv, -⟩ := Option.map_eq_some_iff.mp hv'
    exact ⟨hdefers.inTick, ⟨v, hv⟩, hdefers.queue, hdefers.batches⟩

/-- A frame goes that is no batch. -/
theorem Idles.pop {frame : Frame α β} {stack : List (Frame α β)} (hstack : m.stack = frame :: stack)
    (hbatch : frame.batch? = none) : m.Idles { m with stack } :=
  ⟨rfl, by rw [hstack, batchesOf, batchesOf, List.filterMap_cons_none hbatch]⟩

/-- Assumes: the first of these is about to happen to the same queue and the same batches. -/
theorem Idles.defers (h : m.Idles m') (hdepth : m'.world.depth = m.world.depth)
    (hviews : m'.world.views = m.world.views) (hdefers : m'.Defers view m'') :
    m.Defers view m'' where
  inTick := hdepth ▸ hdefers.inTick
  there := hviews ▸ hdefers.there
  queue := hdefers.queue.trans (congrArg (· ++ [view]) h.1)
  batches := hdefers.batches.trans h.2

/-- What is on top of the stack puts at most one composition off, unless it ends a tick or goes
through a batch. -/
theorem idles_or_defers_resume (answer : Answer α β)
    (hframe : ∀ frame below, m.stack = frame :: below →
      frame.batch? = none ∧ frame.closes = false) :
    m.Idles (m.resume answer) ∨ ∃ view, m.Defers view (m.resume answer) := by
  have hresumes := m.resumes answer
  generalize m.resume answer = m' at hresumes ⊢
  cases hresumes with
  | rest | calling => exact .inl ⟨rfl, rfl⟩
  | closing hstack => exact absurd (hframe _ _ hstack).2 (by simp [Frame.closes])
  | drain hstack | drained hstack => exact absurd (hframe _ _ hstack).1 (by simp [Frame.batch?])
  | skipDelivery hstack | callListener hstack | delivered hstack | skipAnnouncement hstack
  | callViewer hstack | announced hstack | fail hstack | composed hstack | subscribed hstack
  | built hstack | fed hstack => exact .inl (Idles.pop hstack rfl)
  | @hear source event ticket tickets view slot below hstack =>
    have hpopped : m.Idles { m with stack := .delivering source event tickets :: below } :=
      ⟨rfl, by rw [hstack]; rfl⟩
    exact (idles_or_defers_hear _ _ _ _).imp hpopped.trans fun h ↦ ⟨_, hpopped.defers rfl rfl h⟩
  | compose hstack => exact .inl ((Idles.pop hstack rfl).trans (idles_composeIfDue _ _))
  | notComposed hstack | settle hstack =>
    exact .inl ((Idles.pop hstack rfl).trans (idles_settle _ _))
  | release hstack => exact .inl ((Idles.pop hstack rfl).trans (idles_release _ _))
  | @subscribedView view ticket below hstack =>
    have hpopped : m.Idles ({ m with stack := below }.withWorld (.addHandle (.view view) ticket)) :=
      ⟨rfl, by rw [hstack]; rfl⟩
    exact .inl (hpopped.trans (idles_release view _))
  | connected hstack =>
    have hpopped := Idles.pop hstack rfl
    exact (idles_or_defers_requestCompose _ _).imp hpopped.trans fun h ↦
      ⟨_, hpopped.defers rfl rfl h⟩
  | @connect view input inputs below hstack =>
    have hpopped : m.Idles { m with stack := .connecting view inputs :: below } :=
      ⟨rfl, by rw [hstack]; rfl⟩
    exact (idles_or_defers_connect _ _ _ _).imp hpopped.trans fun h ↦
      ⟨_, hpopped.defers rfl rfl h⟩
  | feed hstack => exact .inl ((Idles.pop hstack rfl).trans (idles_feed _ _))

/-! ### Every move -/

theorem posts_of_idles_or_defers {move : Move α β}
    (h : m.Idles m' ∨ ∃ view, m.Defers view m') :
    m.Posts move ((m'.world.deferred.drop m.world.deferred.length).map .deferred) m' := by
  rcases h with hidles | ⟨view, hdefers⟩
  · rw [hidles.1, List.drop_length]
    exact .idle hidles
  · rw [hdefers.queue, List.drop_left]
    exact .deferred hdefers

theorem posts_closeTick {move : Move α β} {below : List (Frame α β)} (answer : Answer α β)
    (hcalm : m.isUnwinding = false) (hbelow : batchesOf below = batchesOf m.stack) :
    m.Posts move [.begun m.world.closeTick.1] ({ m with stack := below }.closeTick answer) :=
  .begun hcalm ⟨.done, rfl⟩ rfl hbelow rfl

theorem posts_resume {answer : Answer α β} (hcontrol : m.control = .returning answer) :
    m.Posts .advance (m.postings .advance) (m.resume answer) := by
  have hcalm : m.isUnwinding = false := by rw [isUnwinding, hcontrol]
  have hother (hframe : ∀ frame below, m.stack = frame :: below →
        frame.batch? = none ∧ frame.closes = false) :
      m.Posts .advance
        (((m.resume answer).world.deferred.drop m.world.deferred.length).map .deferred)
        (m.resume answer) :=
    posts_of_idles_or_defers (idles_or_defers_resume answer hframe)
  cases hstack : m.stack with
  | nil =>
    simp only [postings, hcontrol, hstack]
    exact hother (by simp [hstack])
  | cons frame below =>
    cases frame with
    | closing answer' =>
      simp only [postings, hcontrol, hstack, resume]
      exact posts_closeTick answer' hcalm (by rw [hstack]; rfl)
    | draining views answer' =>
      cases views with
      | nil =>
        simp only [postings, hcontrol, hstack, resume]
        exact .ended hstack rfl
      | cons view views =>
        simp only [postings, hcontrol, hstack, resume, runDeferred]
        split
        · exact .started hstack rfl rfl
        · exact .started hstack (deferred_flush view _) (idles_flush view _).2
    | _ =>
      simp only [postings, hcontrol, hstack]
      exact hother (by simp [hstack, Frame.batch?, Frame.closes])

theorem posts_giveUp {message : String} (hcontrol : m.control = .unwinding message) :
    m.Posts .advance (m.postings .advance) (m.giveUp message) := by
  have hunwinding : m.isUnwinding := by rw [isUnwinding, hcontrol]
  cases hstack : m.stack with
  | nil =>
    simp only [postings, hcontrol, hstack, giveUp]
    exact .idle ⟨rfl, rfl⟩
  | cons frame below =>
    cases frame with
    | calling call turn =>
      simp only [postings, hcontrol, hstack, giveUp]
      exact .idle ⟨rfl, rfl⟩
    | closing answer =>
      simp only [postings, hcontrol, hstack, giveUp]
      exact .dropped (.inl hunwinding) (by rw [hstack]; rfl) rfl
    | draining views answer =>
      simp only [postings, hcontrol, hstack, giveUp]
      exact .broken hunwinding hstack (World.deferred_unschedule _ _)
    | holding view | building view =>
      simp only [postings, hcontrol, hstack, giveUp]
      have hpopped : m.Idles { world := m.world, stack := below, control := .unwinding message } :=
        ⟨rfl, by rw [hstack]; rfl⟩
      exact .idle (hpopped.trans (idles_release view _))
    | subscribing target ticket =>
      simp only [postings, hcontrol, hstack, giveUp]
      have hpopped : m.Idles (withWorld (.unregister target ticket)
          { world := m.world, stack := below, control := .unwinding message }) := by
        cases target <;> exact ⟨rfl, by rw [hstack]; rfl⟩
      cases target with
      | source source => exact .idle hpopped
      | view view => exact .idle (hpopped.trans (idles_release view _))
    | _ =>
      simp only [postings, hcontrol, hstack, giveUp]
      exact .idle ⟨rfl, by rw [hstack]; rfl⟩

theorem posts_serve {request : Request α β} {heard : Heard α β}
    (hcontrol : m.control = .user heard) :
    m.Posts (.request request) (m.postings (.request request)) (m.serve request) := by
  have hcalm : m.isUnwinding = false := by rw [isUnwinding, hcontrol]
  cases request with
  | leaveTick =>
    simp only [postings, hcontrol, serve]
    exact posts_closeTick .done hcalm rfl
  | abandonTick =>
    simp only [postings, hcontrol, serve]
    exact .dropped (.inr rfl) rfl rfl
  | emit source event => exact .idle (idles_emit source event m)
  | poll feed => exact .idle (idles_feed feed m)
  | build sources composer =>
    refine .idle ?_
    simp only [serve, build]
    split <;> exact ⟨rfl, rfl⟩
  | subscribe target key =>
    have hsubscribes := m.subscribes target key
    show m.Posts _ _ (m.subscribe target key)
    generalize m.subscribe target key = m' at hsubscribes ⊢
    cases hsubscribes <;> exact .idle ⟨rfl, rfl⟩
  | cancel handle owned =>
    refine .idle (serve_cancel_induction (motive := m.Idles) (fun m' other h ↦ h.trans ⟨?_, rfl⟩)
      (fun m' target h ↦ h.trans ⟨World.deferred_strand target m'.world, rfl⟩)
      (fun m' view h ↦ h.trans (idles_dropView view m')) handle owned ⟨rfl, rfl⟩)
    simp only [withWorld, World.cancel]
    split
    case h_1 target _ _ => cases target <;> rfl
    case h_2 => rfl
  | dispose view =>
    refine .idle ⟨?_, rfl⟩
    simp only [serve, withWorld, World.dispose]
    split
    · rfl
    · split
      · rfl
      · exact World.deferred_disconnect view m.world
  | dropView view => exact .idle (idles_dropView view m)
  | finish | compose value | raise message =>
    refine .idle ?_
    exact serve_of_ends (motive := m.Idles) rfl ⟨rfl, rfl⟩
      fun call turn below control hstack _ ↦ ⟨rfl, by rw [hstack]; rfl⟩
  | _ => exact .idle ⟨rfl, rfl⟩

/-- One move puts off at most one composition, or begins, continues, ends or gives up one batch. -/
theorem posts_move (move : Move α β) (m : Machine α β) :
    m.Posts move (m.postings move) (m.move move) := by
  cases move with
  | advance =>
    simp only [Machine.move, advance]
    cases hcontrol : m.control with
    | user heard =>
      simp only [postings, hcontrol]
      exact .idle ⟨rfl, rfl⟩
    | returning answer => exact posts_resume hcontrol
    | unwinding message => exact posts_giveUp hcontrol
  | request request =>
    simp only [Machine.move, submit]
    cases hcontrol : m.control with
    | user heard => exact posts_serve hcontrol
    | returning answer | unwinding message =>
      have hnone : m.postings (.request request) = [] := by
        cases request <;> simp only [postings, hcontrol]
      rw [hnone]
      exact .idle ⟨rfl, rfl⟩

end Machine

end LiveRecord.Flow
