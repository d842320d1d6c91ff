import LiveRecord.Proofs.Flow.Backlog
import LiveRecord.Proofs.Flow.Disposal
import LiveRecord.Proofs.Flow.Recovery

/-!
# No composition is run twice, or lost

The compositions that are put off in the course of a run are numbered in the order in which that
happens (`Account`). After every run each of them was started once, or dropped once, or waits in one
place, and a batch is started in the order of its numbers (`Machine.tracks_run`). A view that is
live is scheduled exactly while one composition of it waits (`Machine.booked_run`).
-/

set_option autoImplicit false

namespace LiveRecord.Flow

variable {α β : Type}

/-- The compositions that were put off, each with its number. -/
structure Account where
  /-- How many were put off. -/
  posted : Nat := 0
  queue : List (Nat × ViewId) := []
  /-- What is left of the batches at work, the innermost first. -/
  batches : List (List (Nat × ViewId)) := []
  /-- All batches that have begun. -/
  begun : List (List (Nat × ViewId)) := []
  started : List (Nat × ViewId) := []
  dropped : List (Nat × ViewId) := []

namespace Account

def post (account : Account) : Posting → Account
  | .deferred view =>
    { account with
      posted := account.posted + 1, queue := account.queue ++ [(account.posted, view)] }
  | .begun views =>
    { account with
      queue := account.queue.drop views.length
      batches := account.queue.take views.length :: account.batches
      begun := account.begun ++ [account.queue.take views.length] }
  | .started _ =>
    match account.batches with
    | (job :: left) :: others =>
      { account with batches := left :: others, started := account.started ++ [job] }
    | _ => account
  | .ended => { account with batches := account.batches.tail }
  | .dropped views =>
    { account with
      queue := account.queue.drop views.length
      dropped := account.dropped ++ account.queue.take views.length }
  | .broken _ =>
    { account with
      batches := account.batches.tail, dropped := account.dropped ++ account.batches.headD [] }

/-- The account of all that became of compositions that were put off. -/
def of (past : List Posting) : Account := past.foldl post {}

theorem of_append (past postings : List Posting) :
    of (past ++ postings) = postings.foldl post (of past) := List.foldl_append

/-- All compositions that were put off. -/
def jobs (account : Account) : List (Nat × ViewId) :=
  account.started ++ account.dropped ++ account.batches.flatten ++ account.queue

end Account

/-- The composition that is started. -/
def Posting.started? : Posting → Option ViewId
  | started view => some view
  | _ => none

namespace Machine

variable {m m' : Machine α β} {past : List Posting}

/-- A batch is about to start its first composition. -/
def Opening (m : Machine α β) : Prop :=
  ∃ returned views answer below,
    m.control = .returning returned ∧ m.stack = .draining views answer :: below

/-- Where the rest of a batch is: nowhere, at work after the first composition was started, about to
be started, or dropped after that. -/
inductive Rests (account : Account) (m : Machine α β) (done left : List (Nat × ViewId)) : Prop
  | through (h : left = [])
  | atWork (hdone : done ≠ []) (h : left ∈ account.batches)
  | opening (h : account.batches.head? = some left) (hopening : m.Opening)
  | broken (hdone : done ≠ []) (h : left ⊆ account.dropped)

/-- The batch was started in order up to some place. -/
def Follows (account : Account) (m : Machine α β) (batch : List (Nat × ViewId)) : Prop :=
  ∃ done left, batch = done ++ left ∧ done.Sublist account.started ∧ Rests account m done left

/-- The account agrees with the machine, and nothing is started twice, lost or out of order. -/
structure Tracks (past : List Posting) (m : Machine α β) : Prop where
  queue : (Account.of past).queue.map (·.2) = m.world.deferred
  batches : (Account.of past).batches.map (·.map (·.2)) = batchesOf m.stack
  started : (Account.of past).started.map (·.2) = past.filterMap (·.started?)
  once : ((Account.of past).jobs.map (·.1)).Perm (List.range (Account.of past).posted)
  ordered : ((Account.of past).queue.map (·.1)).Pairwise (· < ·)
  inOrder : ∀ batch ∈ (Account.of past).begun, (batch.map (·.1)).Pairwise (· < ·)
  follows : ∀ batch ∈ (Account.of past).begun, Follows (Account.of past) m batch

theorem Tracks.start : Tracks [] ({} : Machine α β) where
  queue := rfl
  batches := rfl
  started := rfl
  once := .refl _
  ordered := .nil
  inOrder := by simp [Account.of]
  follows := by simp [Account.of]

/-- A batch that is about to start its first composition does so next, unless it is empty. -/
theorem Opening.move (h : m.Opening) (move : Move α β) :
    (m.move move = m ∧ m.postings move = []) ∨ (∃ view, m.postings move = [.started view]) ∨
      m.postings move = [.ended] := by
  obtain ⟨returned, views, answer, below, hcontrol, hstack⟩ := h
  cases move with
  | request request =>
    refine .inl ⟨by simp only [Machine.move, submit, hcontrol], ?_⟩
    cases request <;> simp only [postings, hcontrol]
  | advance =>
    refine .inr ?_
    cases views with
    | nil => exact .inr (by simp only [postings, hcontrol, hstack])
    | cons view views => exact .inl ⟨view, by simp only [postings, hcontrol, hstack]⟩

section Rests

variable {account account' : Account} {done left : List (Nat × ViewId)}

/-- Assumes: no batch is about to start its first composition. -/
theorem Rests.imp (h : Rests account m done left) (hopening : ¬ m.Opening)
    (hbatches : ∀ batch ∈ account.batches, batch ∈ account'.batches)
    (hdropped : account.dropped ⊆ account'.dropped) : Rests account' m' done left := by
  cases h with
  | through hleft => exact .through hleft
  | atWork hdone hleft => exact .atWork hdone (hbatches left hleft)
  | opening _ hopen => exact absurd hopen hopening
  | broken hdone hleft => exact .broken hdone (List.Subset.trans hleft hdropped)

theorem Follows.imp {batch : List (Nat × ViewId)} (h : Follows account m batch)
    (hstarted : account.started.Sublist account'.started)
    (hrests : ∀ done left, Rests account m done left → Rests account' m' done left) :
    Follows account' m' batch := by
  obtain ⟨done, left, heq, hdone, hleft⟩ := h
  exact ⟨done, left, heq, hdone.trans hstarted, hrests done left hleft⟩

end Rests

namespace Tracks

theorem lt_posted (h : Tracks past m) {job : Nat × ViewId}
    (hjob : job ∈ (Account.of past).queue) : job.1 < (Account.of past).posted := by
  have hmem : job.1 ∈ (Account.of past).jobs.map (·.1) :=
    List.mem_map_of_mem (List.mem_append_right _ hjob)
  exact List.mem_range.mp (h.once.subset hmem)

/-- Assumes: a batch that is about to start does not stay behind. -/
theorem idle (h : Tracks past m) (hidles : m.Idles m') (hopening : m.Opening → m' = m) :
    Tracks past m' where
  queue := h.queue.trans hidles.1.symm
  batches := h.batches.trans hidles.2.symm
  started := h.started
  once := h.once
  ordered := h.ordered
  inOrder := h.inOrder
  follows batch hbatch := by
    by_cases hopen : m.Opening
    · exact hopening hopen ▸ h.follows batch hbatch
    · refine (h.follows batch hbatch).imp (.refl _) fun done left hrests ↦ ?_
      exact hrests.imp hopen (fun _ ↦ id) (List.Subset.refl _)

theorem deferred {view : ViewId} (h : Tracks past m) (hdefers : m.Defers view m')
    (hopening : ¬ m.Opening) : Tracks (past ++ [.deferred view]) m' := by
  have haccount : Account.of (past ++ [.deferred view]) = (Account.of past).post (.deferred view) :=
    Account.of_append past _
  constructor <;> rw [haccount]
  case queue =>
    rw [hdefers.queue, ← h.queue, Account.post, List.map_append]
    rfl
  case batches => exact h.batches.trans hdefers.batches.symm
  case started =>
    rw [List.filterMap_append]
    exact h.started.trans (List.append_nil _).symm
  case once =>
    have hjobs : ((Account.of past).post (.deferred view)).jobs =
        (Account.of past).jobs ++ [((Account.of past).posted, view)] := by
      simp [Account.jobs, Account.post]
    rw [hjobs, List.map_append, Account.post, List.range_succ]
    exact h.once.append_right _
  case ordered =>
    rw [Account.post, List.map_append, List.pairwise_append]
    refine ⟨h.ordered, List.pairwise_singleton _ _, ?_⟩
    intro number hnumber next hnext
    obtain ⟨job, hjob, rfl⟩ := List.mem_map.mp hnumber
    obtain rfl := List.mem_singleton.mp hnext
    exact h.lt_posted hjob
  case inOrder => exact h.inOrder
  case follows =>
    intro batch hbatch
    refine (h.follows batch hbatch).imp (.refl _) fun done left hrests ↦ ?_
    exact hrests.imp hopening (fun _ ↦ id) (List.Subset.refl _)

/-- The first jobs of the queue are those that the end of a tick takes. -/
theorem take_queue (h : Tracks past m) :
    ((Account.of past).queue.take m.world.closeTick.1.length).map (·.2) = m.world.closeTick.1 := by
  rw [List.map_take, h.queue, World.deferred_closeTick, List.take_left]

theorem drop_queue (h : Tracks past m) :
    ((Account.of past).queue.drop m.world.closeTick.1.length).map (·.2) =
      m.world.closeTick.2.deferred := by
  rw [List.map_drop, h.queue, World.deferred_closeTick, List.drop_left]

theorem begun {answer : Answer α β} {below : List (Frame α β)} (h : Tracks past m)
    (hreturning : ∃ returned, m'.control = .returning returned)
    (hstack' : m'.stack = .draining m.world.closeTick.1 answer :: below)
    (hbelow : batchesOf below = batchesOf m.stack) (hworld : m'.world = m.world.closeTick.2)
    (hopening : ¬ m.Opening) : Tracks (past ++ [.begun m.world.closeTick.1]) m' := by
  have haccount : Account.of (past ++ [.begun m.world.closeTick.1]) =
      (Account.of past).post (.begun m.world.closeTick.1) := Account.of_append past _
  have htaken (job : Nat × ViewId) := congrArg (List.count job)
    (List.take_append_drop m.world.closeTick.1.length (Account.of past).queue)
  constructor <;> rw [haccount]
  case queue => exact h.drop_queue.trans (congrArg World.deferred hworld).symm
  case batches =>
    rw [hstack', batchesOf_draining, Account.post, List.map_cons, h.take_queue, h.batches, hbelow]
  case started =>
    rw [List.filterMap_append]
    exact h.started.trans (List.append_nil _).symm
  case once =>
    refine (List.Perm.map _ (List.perm_iff_count.mpr fun job ↦ ?_)).trans h.once
    have htaken := htaken job
    simp only [Account.jobs, Account.post, List.flatten_cons, List.count_append] at htaken ⊢
    omega
  case ordered => exact h.ordered.sublist ((List.drop_sublist _ _).map _)
  case inOrder =>
    intro batch hbatch
    rcases List.mem_append.mp hbatch with hold | hnew
    · exact h.inOrder batch hold
    · obtain rfl := List.mem_singleton.mp hnew
      exact h.ordered.sublist ((List.take_sublist _ _).map _)
  case follows =>
    intro batch hbatch
    rcases List.mem_append.mp hbatch with hold | hnew
    · refine (h.follows batch hold).imp (.refl _) fun done left hrests ↦ ?_
      exact hrests.imp hopening (fun _ ↦ List.mem_cons_of_mem _) (List.Subset.refl _)
    · obtain rfl := List.mem_singleton.mp hnew
      obtain ⟨returned, hcontrol⟩ := hreturning
      exact ⟨[], _, rfl, List.nil_sublist _,
        .opening rfl ⟨returned, _, answer, below, hcontrol, hstack'⟩⟩

/-- The batch on top of the stack, with the numbers of its compositions. -/
theorem exists_batches {views : List ViewId} {batches : List (List ViewId)} (h : Tracks past m)
    (hbatches : batchesOf m.stack = views :: batches) :
    ∃ batch others, (Account.of past).batches = batch :: others ∧ batch.map (·.2) = views ∧
      others.map (·.map (·.2)) = batches := by
  have heq := h.batches.trans hbatches
  exact List.map_eq_cons_iff.mp heq

theorem started_next {view : ViewId} {views : List ViewId} {answer : Answer α β}
    {below : List (Frame α β)} (h : Tracks past m)
    (hstack : m.stack = .draining (view :: views) answer :: below)
    (hqueue : m'.world.deferred = m.world.deferred)
    (hbatches : batchesOf m'.stack = views :: batchesOf below) :
    Tracks (past ++ [.started view]) m' := by
  have haccount : Account.of (past ++ [.started view]) =
      (Account.of past).post (.started view) := Account.of_append past _
  obtain ⟨batch, others, heq, hviews, hothers⟩ := h.exists_batches
    (hstack ▸ batchesOf_draining (view :: views) answer below)
  obtain ⟨job, left, rfl, rfl, rfl⟩ := List.map_eq_cons_iff.mp hviews
  have hpost : (Account.of past).post (.started job.2) = { Account.of past with
      batches := left :: others, started := (Account.of past).started ++ [job] } := by
    rw [Account.post, heq]
  constructor <;> rw [haccount, hpost]
  case queue => exact h.queue.trans hqueue.symm
  case batches => rw [hbatches, List.map_cons, hothers]
  case started =>
    rw [List.filterMap_append, List.map_append, h.started]
    rfl
  case once =>
    refine (List.Perm.map _ (List.perm_iff_count.mpr fun other ↦ ?_)).trans h.once
    simp only [Account.jobs, heq, List.flatten_cons, List.count_append, List.count_cons,
      List.count_nil]
    omega
  case ordered => exact h.ordered
  case inOrder => exact h.inOrder
  case follows =>
    intro batch hbatch
    obtain ⟨done, rest, hsplit, hdone, hrests⟩ := h.follows batch hbatch
    -- the batch at work goes on by one composition, and the others stay where they are
    have hon (hrest : rest = job :: left) : Follows { Account.of past with
        batches := left :: others, started := (Account.of past).started ++ [job] } m' batch := by
      refine ⟨done ++ [job], left, ?_, hdone.append (.refl _), ?_⟩
      · rw [hsplit, hrest, List.append_assoc]
        rfl
      · exact .atWork (by simp) List.mem_cons_self
    have hstay (hrests' : Rests { Account.of past with
          batches := left :: others, started := (Account.of past).started ++ [job] } m' done rest) :
        Follows { Account.of past with
          batches := left :: others, started := (Account.of past).started ++ [job] } m' batch :=
      ⟨done, rest, hsplit, hdone.trans (List.sublist_append_left _ _), hrests'⟩
    cases hrests with
    | through hrest => exact hstay (.through hrest)
    | atWork hne hrest =>
      rw [heq] at hrest
      rcases List.mem_cons.mp hrest with htop | hother
      · exact hon htop
      · exact hstay (.atWork hne (List.mem_cons_of_mem _ hother))
    | opening hrest _ =>
      rw [heq] at hrest
      exact hon (Option.some.inj hrest).symm
    | broken hne hrest => exact hstay (.broken hne hrest)

theorem ended {answer : Answer α β} (h : Tracks past m)
    (hstack : m.stack = .draining [] answer :: m'.stack) (hworld : m'.world = m.world) :
    Tracks (past ++ [.ended]) m' := by
  have haccount : Account.of (past ++ [.ended]) = (Account.of past).post .ended :=
    Account.of_append past _
  obtain ⟨batch, others, heq, hviews, hothers⟩ := h.exists_batches
    (hstack ▸ batchesOf_draining [] answer m'.stack)
  obtain rfl := List.map_eq_nil_iff.mp hviews
  constructor <;> rw [haccount, Account.post, heq]
  case queue => exact h.queue.trans (congrArg World.deferred hworld).symm
  case batches => exact hothers
  case started =>
    rw [List.filterMap_append]
    exact h.started.trans (List.append_nil _).symm
  case once =>
    have hjobs := h.once
    simp only [Account.jobs, heq, List.flatten_cons, List.nil_append] at hjobs
    exact hjobs
  case ordered => exact h.ordered
  case inOrder => exact h.inOrder
  case follows =>
    intro batch hbatch
    refine (h.follows batch hbatch).imp (.refl _) fun done left hrests ↦ ?_
    cases hrests with
    | through hleft => exact .through hleft
    | atWork hne hleft =>
      rw [heq] at hleft
      rcases List.mem_cons.mp hleft with htop | hother
      · exact .through htop
      · exact .atWork hne hother
    | opening hleft _ =>
      rw [heq] at hleft
      exact .through (Option.some.inj hleft).symm
    | broken hne hleft => exact .broken hne hleft

theorem dropped (h : Tracks past m) (hbatches : batchesOf m'.stack = batchesOf m.stack)
    (hworld : m'.world = m.world.abandonTick) (hopening : ¬ m.Opening) :
    Tracks (past ++ [.dropped m.world.closeTick.1]) m' := by
  have haccount : Account.of (past ++ [.dropped m.world.closeTick.1]) =
      (Account.of past).post (.dropped m.world.closeTick.1) := Account.of_append past _
  have htaken (job : Nat × ViewId) := congrArg (List.count job)
    (List.take_append_drop m.world.closeTick.1.length (Account.of past).queue)
  constructor <;> rw [haccount]
  case queue =>
    rw [hworld, World.deferred_abandonTick]
    exact h.drop_queue
  case batches => exact h.batches.trans hbatches.symm
  case started =>
    rw [List.filterMap_append]
    exact h.started.trans (List.append_nil _).symm
  case once =>
    refine (List.Perm.map _ (List.perm_iff_count.mpr fun job ↦ ?_)).trans h.once
    have htaken := htaken job
    simp only [Account.jobs, Account.post, List.count_append] at htaken ⊢
    omega
  case ordered => exact h.ordered.sublist ((List.drop_sublist _ _).map _)
  case inOrder => exact h.inOrder
  case follows =>
    intro batch hbatch
    refine (h.follows batch hbatch).imp (.refl _) fun done left hrests ↦ ?_
    exact hrests.imp hopening (fun _ ↦ id) (List.subset_append_left _ _)

theorem broken {views : List ViewId} {answer : Answer α β} (h : Tracks past m)
    (hstack : m.stack = .draining views answer :: m'.stack)
    (hqueue : m'.world.deferred = m.world.deferred) (hopening : ¬ m.Opening) :
    Tracks (past ++ [.broken views]) m' := by
  have haccount : Account.of (past ++ [.broken views]) = (Account.of past).post (.broken views) :=
    Account.of_append past _
  obtain ⟨batch, others, heq, hviews, hothers⟩ := h.exists_batches
    (hstack ▸ batchesOf_draining views answer m'.stack)
  constructor <;> rw [haccount, Account.post, heq]
  case queue => exact h.queue.trans hqueue.symm
  case batches => exact hothers
  case started =>
    rw [List.filterMap_append]
    exact h.started.trans (List.append_nil _).symm
  case once =>
    refine (List.Perm.map _ (List.perm_iff_count.mpr fun job ↦ ?_)).trans h.once
    simp only [Account.jobs, heq, List.flatten_cons, List.count_append, List.headD_cons,
      List.tail_cons]
    omega
  case ordered => exact h.ordered
  case inOrder => exact h.inOrder
  case follows =>
    intro other hbatch
    refine (h.follows other hbatch).imp (.refl _) fun done left hrests ↦ ?_
    cases hrests with
    | through hleft => exact .through hleft
    | atWork hne hleft =>
      rw [heq] at hleft
      rcases List.mem_cons.mp hleft with rfl | hother
      · exact .broken hne (List.subset_append_right _ _)
      · exact .atWork hne hother
    | opening _ hopen => exact absurd hopen hopening
    | broken hne hleft =>
      exact .broken hne (List.Subset.trans hleft (List.subset_append_left _ _))

theorem move (h : Tracks past m) (move : Move α β) :
    Tracks (past ++ m.postings move) (m.move move) := by
  have hposts := posts_move move m
  have hopening := fun hopen : m.Opening ↦ hopen.move move
  generalize m.postings move = postings at hposts hopening
  generalize m.move move = m' at hposts hopening
  cases hposts with
  | idle hidles =>
    rw [List.append_nil]
    exact h.idle hidles fun hopen ↦ by simpa using hopening hopen
  | deferred hdefers => exact h.deferred hdefers fun hopen ↦ by simpa using hopening hopen
  | begun hcalm hreturning hstack' hbelow hworld =>
    exact h.begun hreturning hstack' hbelow hworld fun hopen ↦ by simpa using hopening hopen
  | started hstack hqueue hbatches => exact h.started_next hstack hqueue hbatches
  | ended hstack hworld => exact h.ended hstack hworld
  | dropped hraised hbatches hworld =>
    exact h.dropped hbatches hworld fun hopen ↦ by simpa using hopening hopen
  | broken hunwinding hstack hqueue =>
    exact h.broken hstack hqueue fun hopen ↦ by simpa using hopening hopen

end Tracks

/-- What becomes of compositions that are put off, in the course of a run. -/
def posted : List (Move α β) → Machine α β → List Posting
  | [], _ => []
  | move :: rest, m => m.postings move ++ posted rest (m.move move)

/-- Nothing that is put off is started twice, lost or out of order, in any run. -/
theorem tracks_run (moves : List (Move α β)) :
    Tracks (posted moves {}) (run moves ({} : Machine α β)) := by
  suffices hall : ∀ (moves : List (Move α β)) (m : Machine α β) (past : List Posting),
      Tracks past m → Tracks (past ++ posted moves m) (m.run moves) by
    exact hall moves {} [] .start
  intro moves
  induction moves with
  | nil =>
    intro m past h
    exact (List.append_nil past).symm ▸ h
  | cons move rest ih =>
    intro m past h
    rw [posted, ← List.append_assoc]
    exact ih _ _ (h.move move)

end Machine

/-! ### Views that are scheduled -/

namespace Situation

variable {s s' : Situation α β} {seen : List (ViewNotice α β)} {slot : Nat} {event : Event α}

/-- What there is to know of the compositions that wait for the view. -/
def booking (s : Situation α β) : Bool × Bool × Nat := (s.view.scheduled, s.view.live, s.jobs)

/-- At most one composition of the view waits, and the view is scheduled for it. A view that is live
is not scheduled otherwise. -/
structure Booked (s : Situation α β) : Prop where
  jobs : s.jobs ≤ s.view.scheduled.toNat
  live : s.view.live → s.jobs = s.view.scheduled.toNat

theorem Booked.congr (h : s.Booked) (heq : s'.booking = s.booking) : s'.Booked := by
  simp only [booking, Prod.mk.injEq] at heq
  obtain ⟨hscheduled, hlive, hjobs⟩ := heq
  constructor
  case jobs =>
    rw [hjobs, hscheduled]
    exact h.jobs
  case live =>
    rw [hjobs, hscheduled, hlive]
    exact h.live

theorem Booked.keep (h : s.Booked) (hkept : s.Kept s') : s'.Booked := by
  obtain ⟨gone, inputs, owned, live, hlive, rfl⟩ := hkept
  exact ⟨h.jobs, fun hl ↦ h.live (hlive hl)⟩

theorem booking_workOff (s : Situation α β) : s.workOff.booking = s.booking := by
  unfold workOff
  split <;> rfl

theorem booking_flush (s : Situation α β) : s.flush.booking = s.booking := by
  unfold flush
  split
  · rfl
  · exact booking_workOff _

theorem booking_settle (s : Situation α β) : s.settle.booking = s.booking := by
  unfold settle
  split
  · exact booking_workOff s
  · rfl

theorem booking_composeIfDue (s : Situation α β) : s.composeIfDue.booking = s.booking := by
  unfold composeIfDue
  split
  · dsimp only
    split
    · exact booking_settle _
    · rfl
    · rfl
  · exact booking_settle s

theorem booking_absorb (slot : Nat) (event : Event α) (s : Situation α β) :
    (s.modify (.absorb slot event)).booking = s.booking := by
  have hscheduled : (s.view.absorb slot event).scheduled = s.view.scheduled := by
    unfold View.absorb
    cases event <;> dsimp only <;> split <;> rfl
  simp only [booking, modify, hscheduled, View.live_absorb]

theorem Booked.requestCompose (inTick : Bool) (h : s.Booked) :
    (s.requestCompose inTick).Booked := by
  unfold Situation.requestCompose
  split
  · exact h.congr (booking_flush s)
  · split
    case isTrue => exact h
    case isFalse hscheduled =>
      have hnone : s.jobs = 0 := by simpa [hscheduled] using h.jobs
      exact ⟨by simp [schedule, modify, hnone], fun _ ↦ by simp [schedule, modify, hnone]⟩

theorem Booked.hearing (h : s.Booked) (hheard : s.Hearing slot event seen s') : s'.Booked := by
  cases hheard with
  | deaf => exact h
  | heard inTick hslot hlive hlent =>
    have habsorbed : (s.modify (.absorb slot event)).Booked := h.congr (booking_absorb slot event s)
    unfold Situation.hear
    split
    · exact habsorbed
    · cases event with
      | pending => exact habsorbed
      | loaded value => exact habsorbed.requestCompose inTick
      | failed error => exact habsorbed.congr (booking_flush _)

theorem Booked.step (h : s.Booked) (hstep : s.Step seen s') : s'.Booked := by
  cases hstep with
  | keep hkept => exact h.keep hkept
  | hear slot event hheard => exact h.hearing hheard
  | @connect input inputs tasks htasks registered event _ _ hheard =>
    have hconnecting : Booked ({ s with tasks := .connecting inputs :: tasks }.modify fun v ↦
        { v with inputs := registered }) := h.congr rfl
    exact hconnecting.hearing hheard
  | @connected inTick tasks htasks =>
    have hpopped : Booked { s with tasks } := h.congr rfl
    exact hpopped.requestCompose inTick
  | @run jobs hjobs hlive =>
    have hnone : jobs = 0 := by
      have hone := h.live hlive
      have hmost := Bool.toNat_le s.view.scheduled
      omega
    have hstarted : Booked ({ s with jobs }.modify fun v ↦ { v with scheduled := false }) :=
      ⟨by simp [modify, hnone], fun _ ↦ by simp [modify, hnone]⟩
    exact hstarted.congr (booking_flush _)
  | @skip jobs hjobs hlive =>
    have hmost : jobs ≤ s.view.scheduled.toNat := by
      have := h.jobs
      omega
    refine ⟨hmost, fun hl ↦ ?_⟩
    rw [hlive] at hl
    contradiction
  | compose htasks => exact h.congr (booking_composeIfDue _)
  | settle htasks => exact h.congr (booking_settle _)
  | _ => exact h.congr rfl

theorem Booked.shed {spared : Prop} (h : s.Booked) (hshed : s.Shed spared s') : s'.Booked := by
  cases hshed with
  | giveUp htasks hcomposing hspared => exact h.congr rfl
  | takeBack htasks hspared => exact h.congr rfl
  | @unschedule jobs dropped hjobs hdropped =>
    have hnone : jobs = 0 := by
      have hmost := h.jobs
      have hone := Bool.toNat_le s.view.scheduled
      omega
    exact ⟨by simp [modify, hnone], fun _ ↦ by simp [modify, hnone]⟩

theorem Booked.act {spared : Prop} (h : s.Booked) (hact : s.Act spared seen s') : s'.Booked := by
  cases hact with
  | step hstep => exact h.step hstep
  | shed hshed => exact h.shed hshed

/-- Assumes: no composition of the view waits. -/
theorem Fresh.booked (h : s.Fresh) (hjobs : s.jobs = 0) : s.Booked := by
  obtain ⟨label, composer, count, inputs, hview, -⟩ := h
  exact ⟨hjobs ▸ Nat.zero_le _, fun _ ↦ by rw [hjobs, hview]; rfl⟩

end Situation

namespace Machine

variable {m m' : Machine α β} {view : ViewId}

/-- A view waits that waited before, or is there. -/
theorem Posts.mem_waiting {move : Move α β} {postings : List Posting}
    (h : m.Posts move postings m') (hwaits : view ∈ m'.waiting) :
    view ∈ m.waiting ∨ ∃ v, m.world.views[view]? = some v := by
  have hqueue := m.world.deferred_closeTick
  simp only [waiting, List.mem_append] at hwaits ⊢
  cases h with
  | idle hidles =>
    rw [hidles.1, hidles.2] at hwaits
    exact .inl hwaits
  | deferred hdefers =>
    rw [hdefers.queue, hdefers.batches, List.mem_append, List.mem_singleton] at hwaits
    rcases hwaits with (hqueued | rfl) | hbatch
    · exact .inl (.inl hqueued)
    · exact .inr hdefers.there
    · exact .inl (.inr hbatch)
  | begun hcalm hreturning hstack' hbelow hworld =>
    rw [hworld, hstack', batchesOf_draining, hbelow, List.flatten_cons, List.mem_append] at hwaits
    rw [hqueue, List.mem_append]
    rcases hwaits with hqueued | htaken | hbatch
    · exact .inl (.inl (.inr hqueued))
    · exact .inl (.inl (.inl htaken))
    · exact .inl (.inr hbatch)
  | @started _ next views answer below hstack hqueued hbatches =>
    rw [hqueued, hbatches, List.flatten_cons, List.mem_append] at hwaits
    rw [hstack, batchesOf_draining, List.flatten_cons, List.mem_append]
    rcases hwaits with hqueued | htop | hbatch
    · exact .inl (.inl hqueued)
    · exact .inl (.inr (.inl (List.mem_cons_of_mem _ htop)))
    · exact .inl (.inr (.inr hbatch))
  | ended hstack hworld =>
    rw [hworld] at hwaits
    rw [hstack, batchesOf_draining, List.flatten_cons, List.nil_append]
    exact .inl hwaits
  | dropped hraised hbatches hworld =>
    rw [hworld, hbatches, World.deferred_abandonTick] at hwaits
    rw [hqueue, List.mem_append]
    exact .inl (hwaits.imp_left .inr)
  | @broken _ views answer hunwinding hstack hqueued =>
    rw [hqueued] at hwaits
    rw [hstack, batchesOf_draining, List.flatten_cons, List.mem_append]
    exact .inl (hwaits.imp_right .inr)

/-- Only views that are there wait, and each of them is booked. -/
structure AllBooked (m : Machine α β) : Prop where
  there : ∀ view ∈ m.waiting, view < m.world.views.length
  booked : ∀ view, m.Unborn view ∨ ∃ s, m.situation view = some s ∧ s.Booked

theorem length_views_move (move : Move α β) (m : Machine α β) :
    m.world.views.length ≤ (m.move move).world.views.length :=
  @World.Changes.preserves α β _ _ _ (fun world ↦ m.world.views.length ≤ world.views.length)
    (fun _ _ hle hchange ↦ hle.trans hchange.length_views) (changes_move move m) (Nat.le_refl _)

theorem AllBooked.move (move : Move α β) (hgrounded : m.Grounded) (h : m.AllBooked) :
    (m.move move).AllBooked := by
  have hthere : ∀ view ∈ (m.move move).waiting, view < m.world.views.length := by
    intro view hwaits
    rcases (posts_move move m).mem_waiting hwaits with hbefore | ⟨v, hv⟩
    · exact h.there view hbefore
    · exact (List.getElem?_eq_some_iff.mp hv).1
  constructor
  case there => exact fun view hwaits ↦ (hthere view hwaits).trans_le (length_views_move move m)
  case booked =>
    intro view
    have hturns := @acts_move α β view m False move hgrounded False.elim
    rcases hturns with htakes | ⟨hunborn, -, s, hs, hfresh⟩
    · rcases h.booked view with hunborn | ⟨s, hs, hbooked⟩
      · exact .inl (htakes.of_none hunborn).2
      · obtain ⟨s', hs', hact⟩ := htakes.of_some s hs
        exact .inr ⟨s', hs', hbooked.act hact⟩
    · refine .inr ⟨s, hs, hfresh.booked ?_⟩
      rw [← jobs_of_situation hs, jobs_eq_count, List.count_eq_zero]
      intro hwaits
      exact absurd (hthere view hwaits) (Nat.not_lt.mpr (List.getElem?_eq_none_iff.mp hunborn.1))

/-- Every view that waits is there, and is booked, after every run. -/
theorem allBooked_run (moves : List (Move α β)) : (run moves ({} : Machine α β)).AllBooked :=
  (@run_preserves α β (fun m ↦ m.Grounded ∧ m.AllBooked) (fun _ move h ↦
    ⟨h.1.move move, h.2.move move h.1⟩) {} ⟨.start, by simp [waiting, batchesOf],
      fun _ ↦ .inl ⟨rfl, rfl⟩⟩ moves).2

/-- After every run, a view that is live is scheduled exactly while one composition of it waits. -/
theorem booked_run (moves : List (Move α β)) {v : View α β}
    (hview : (run moves {}).world.views[view]? = some v) :
    let waiting := (run moves ({} : Machine α β)).waiting.count view
    waiting ≤ 1 ∧ (v.live → (v.scheduled ↔ waiting = 1)) := by
  rcases (allBooked_run moves).booked view with hunborn | ⟨s, hs, hbooked⟩
  · rw [hunborn.1] at hview
    contradiction
  · obtain rfl := Option.some.inj ((view_of_situation hs).symm.trans hview)
    rw [← jobs_eq_count, jobs_of_situation hs]
    refine ⟨hbooked.jobs.trans (Bool.toNat_le _), fun hlive ↦ ?_⟩
    rw [hbooked.live hlive]
    cases s.view.scheduled <;> simp

end Machine

end LiveRecord.Flow
