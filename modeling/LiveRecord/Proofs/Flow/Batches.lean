import LiveRecord.Proofs.Flow.Postponement

/-!
# When compositions that were put off are run

A batch begins only when the last tick has just ended, so every composition of it starts while no
tick is open, but for ticks that callbacks opened since and did not close (`Machine.exists_begun`).
What there is to say of ticks and of compositions that are put off is put together in
`Machine.Postpones`, which holds of every run (`Machine.postpones_run`).
-/

set_option autoImplicit false

namespace LiveRecord.Flow

variable {α β : Type}

namespace Machine

variable {m m' : Machine α β} {view : ViewId} {views : List ViewId} {answer : Answer α β}
  {below : List (Frame α β)}

/-- Assumes: there is one batch more at work than before. -/
theorem postings_of_batches (move : Move α β)
    (h : batchesOf (m.move move).stack = views :: batchesOf m.stack) :
    m.postings move = [.begun views] := by
  have hposts := posts_move move m
  generalize m.postings move = postings at hposts ⊢
  generalize m.move move = m' at hposts h
  have hlength := congrArg List.length h
  rw [List.length_cons] at hlength
  cases hposts with
  | idle hidles =>
    rw [hidles.2] at hlength
    omega
  | deferred hdefers =>
    rw [hdefers.batches] at hlength
    omega
  | begun hcalm hreturning hstack' hbelow hworld =>
    rw [hstack', batchesOf_draining] at h
    rw [(List.cons.inj h).1]
  | started hstack hqueue hbatches =>
    rw [hbatches, hstack, batchesOf_draining, List.length_cons, List.length_cons] at hlength
    omega
  | ended hstack hworld | broken hunwinding hstack hqueue =>
    rw [hstack, batchesOf_draining, List.length_cons] at hlength
    omega
  | dropped hraised hbatches hworld =>
    rw [hbatches] at hlength
    omega

/-- A batch at work was at work before, or had one composition more, or has just begun. -/
inductive Derives (m : Machine α β) (move : Move α β) (views : List ViewId) (answer : Answer α β)
    (below : List (Frame α β)) : Prop
  | stays (h : .draining views answer :: below <:+ m.stack)
  | goesOn (view : ViewId) (h : .draining (view :: views) answer :: below <:+ m.stack)
  | begins (hstack' : (m.move move).stack = .draining views answer :: below)
      (hpostings : m.postings move = [.begun views])

/-- Assumes: no batch is among the frames that are new. -/
theorem Derives.of_append {move : Move α β} {new stack : List (Frame α β)}
    (hnew : ∀ frame ∈ new, frame.batch? = none) (hstack : stack <:+ m.stack)
    (hstack' : (m.move move).stack = new ++ stack)
    (h : .draining views answer :: below <:+ (m.move move).stack) :
    m.Derives move views answer below := by
  rw [hstack'] at h
  refine .stays ((suffix_of_append h fun hmem ↦ ?_).trans hstack)
  simpa [Frame.batch?] using hnew _ hmem

/-- Assumes: a batch has begun on top of what was there. -/
theorem Derives.of_batch {move : Move α β} {views' : List ViewId} {answer' : Answer α β}
    {stack : List (Frame α β)} (hstack : stack <:+ m.stack)
    (hbatches : batchesOf stack = batchesOf m.stack)
    (hstack' : (m.move move).stack = .draining views' answer' :: stack)
    (h : .draining views answer :: below <:+ (m.move move).stack) :
    m.Derives move views answer below := by
  rw [hstack'] at h
  rcases List.suffix_cons_iff.mp h with heq | hbelow
  · obtain ⟨hframe, rfl⟩ := List.cons.inj heq
    obtain ⟨rfl, rfl⟩ := Frame.draining.inj hframe
    refine .begins hstack' (postings_of_batches move ?_)
    rw [hstack', batchesOf_draining, hbatches]
  · exact .stays (hbelow.trans hstack)

theorem derives_move (move : Move α β) (hwired : m.Wired)
    (h : .draining views answer :: below <:+ (m.move move).stack) :
    m.Derives move views answer below := by
  have hhands {new : List (Frame α β)} (hnew : ∀ frame ∈ new, frame.hands) :
      ∀ frame ∈ new, frame.batch? = none := fun frame hframe ↦ by
    have hhand := hnew frame hframe
    cases frame <;> first | rfl | contradiction
  have hwork {view : ViewId} {new : List (Frame α β)} (hnew : WorkFrames view new) :
      ∀ frame ∈ new, frame.batch? = none := by
    cases hnew <;> simp [Frame.batch?]
  by_cases hticks : m.opens move ∨ m.closes move
  · obtain ⟨-, -, hsame | ⟨views', hdraining⟩⟩ := ticks_move hticks
    · exact .stays (hsame ▸ h)
    · exact .of_batch (List.suffix_refl _) rfl hdraining h
  · have hrestacks := restacks_move move hwired hticks
    generalize acceptedIn (m.notices move) = accepted at hrestacks
    cases hrestacks with
    | swap hgone hkept hstack hstack' hunmoved =>
      exact .of_append (hhands hkept) (hstack ▸ List.suffix_append _ _) hstack' h
    | @call _ call turn kept hkept hstack' hunmoved =>
      have hnew : ∀ frame ∈ .calling call turn :: kept, frame.batch? = none :=
        List.forall_mem_cons.mpr ⟨rfl, hhands hkept⟩
      exact .of_append hnew (List.suffix_refl _) hstack' h
    | ended hstack hworld => exact .stays (h.trans (hstack ▸ List.suffix_cons _ _))
    | @emit _ source event answer' gone kept below' hthere hgone hkept hstack hstack' hworld =>
      have hnew : ∀ frame ∈ .delivering source event (m.world.sourceTickets source) ::
          .closing answer' :: kept, frame.batch? = none :=
        List.forall_mem_cons.mpr ⟨rfl, List.forall_mem_cons.mpr ⟨rfl, hhands hkept⟩⟩
      exact .of_append hnew (hstack ▸ List.suffix_append _ _) hstack' h
    | @build _ inputs hstack' hunmoved =>
      have hnew : ∀ frame ∈ ([.connecting m.world.views.length inputs, .closing .done,
          .building m.world.views.length] : List (Frame α β)), frame.batch? = none := by
        simp [Frame.batch?]
      exact .of_append hnew (List.suffix_refl _) hstack' h
    | close hstack hstack' hviews hunmoved =>
      exact .of_batch (hstack ▸ List.suffix_cons _ _) (by rw [hstack]; rfl) hstack' h
    | abandoned hunwinding hstack hunmoved => exact .stays (h.trans (hstack ▸ List.suffix_cons _ _))
    | drop hstack hmark hdone hunmoved => exact .stays (h.trans (hstack ▸ List.suffix_cons _ _))
    | @proceed _ frame next above below' hnext hstack hstack' habove hunmoved =>
      have hnew : ∀ frame ∈ above, frame.batch? = none := by
        cases habove with
        | nothing => simp
        | call call => simp [Frame.batch?]
        | work hnew hbegins =>
          intro frame hframe
          rcases List.mem_append.mp hframe with hwork' | hholding
          · exact hwork hnew frame hwork'
          · rw [List.mem_singleton.mp hholding]
            rfl
      rw [hstack'] at h
      have hsuffix := suffix_of_append h fun hmem ↦ by simpa [Frame.batch?] using hnew _ hmem
      rcases List.suffix_cons_iff.mp hsuffix with heq | hbelow
      · obtain ⟨rfl, rfl⟩ := List.cons.inj heq
        cases hnext with
        | draining view => exact .goesOn view (hstack ▸ List.suffix_refl _)
      · exact .stays (hbelow.trans (hstack ▸ List.suffix_cons _ _))
    | @fail _ view error errors tickets below' hstack hstack' hunmoved =>
      have hnew : ∀ frame ∈ ([.announcing view (.failed error) tickets, .failing view errors] :
          List (Frame α β)), frame.batch? = none := by simp [Frame.batch?]
      exact .of_append hnew (hstack ▸ List.suffix_cons _ _) hstack' h
    | work hframe hnew hstack hstack' hunmoved =>
      exact .of_append (hwork hnew) (hstack ▸ List.suffix_cons _ _) hstack' h
    | connected hnew hbegins hstack hstack' hunmoved =>
      exact .of_append (hwork hnew) (hstack ▸ List.suffix_cons _ _) hstack' h

/-- A batch at work has begun at some point of the run, with some compositions that were started
since and those that are left. -/
theorem exists_begun {moves : List (Move α β)}
    (h : .draining views answer :: below <:+ (run moves ({} : Machine α β)).stack) :
    ∃ before move during done, moves = before ++ move :: during ∧
      (run before ({} : Machine α β)).postings move = [.begun (done ++ views)] ∧
      (run (before ++ [move]) ({} : Machine α β)).stack =
        .draining (done ++ views) answer :: below := by
  induction moves using List.reverseRecOn generalizing views with
  | nil => simp at h
  | append_singleton earlier last ih =>
    have hlast : run (earlier ++ [last]) ({} : Machine α β) = (run earlier {}).move last :=
      run_append earlier [last] {}
    rw [hlast] at h
    cases derives_move last (wired_run earlier) h with
    | stays hbefore =>
      obtain ⟨before, move, during, done, rfl, hpostings, hstack⟩ := ih hbefore
      exact ⟨before, move, during ++ [last], done, by simp, hpostings, hstack⟩
    | goesOn view hbefore =>
      obtain ⟨before, move, during, done, rfl, hpostings, hstack⟩ := ih hbefore
      refine ⟨before, move, during ++ [last], done ++ [view], by simp, ?_, ?_⟩
      · rwa [List.append_assoc]
      · rwa [List.append_assoc]
    | begins hstack' hpostings => exact ⟨earlier, last, [], [], rfl, hpostings, hlast ▸ hstack'⟩

/-! ### Every run -/

variable {moves : List (Move α β)}

/-- The end of the outermost tick takes what was put off. Assumes: something was. -/
theorem depth_of_closeTick (h : (run moves ({} : Machine α β)).world.closeTick.1 ≠ []) :
    (run moves ({} : Machine α β)).world.depth = 1 ∧
      (run moves ({} : Machine α β)).world.closeTick.1 =
        (run moves ({} : Machine α β)).world.deferred := by
  obtain ⟨hlast, htaken⟩ := World.closeTick_of_ne_nil h
  have hopen : (run moves ({} : Machine α β)).world.depth ≠ 0 := fun hdepth ↦
    h (htaken.trans (putsOffInTicks_run moves hdepth))
  exact ⟨by omega, htaken⟩

/-- What there is to say after a run of the ticks that are open, and of the compositions that are
put off. -/
structure Postpones (moves : List (Move α β)) : Prop where
  /-- A tick is open for each operation that ends one, and for each that the user opened and did not
  close. -/
  ticks : (run moves {}).world.depth + tally closes moves {} =
    closings (run moves {}).stack + tally opens moves {}
  /-- However a call ends, of the ticks of that time only those are left open that the user opened
  and did not close. -/
  calls : ∀ before call : List (Move α β), before ++ call <+: moves →
    (run (before ++ call) {}).stack = (run before {}).stack →
      (run (before ++ call) {}).world.depth + tally closes call (run before {}) =
        (run before {}).world.depth + tally opens call (run before {})
  putsOff : (run moves ({} : Machine α β)).world.depth = 0 → (run moves {}).world.deferred = []
  tracks : Tracks (posted moves {}) (run moves {})
  /-- A batch is all that was put off, and begins when the last tick has just ended. -/
  begins : ∀ (move : Move α β) (views : List ViewId),
    .begun views ∈ (run moves {}).postings move → views ≠ [] →
      (run moves {}).isUnwinding = false ∧ (run moves {}).world.depth = 1 ∧
        ((run moves {}).move move).world.depth = 0 ∧ views = (run moves {}).world.deferred
  /-- Every composition starts while no tick is open, but for those that the user opened and did not
  close since the batch began. -/
  starts : ∀ (move : Move α β) (view : ViewId), .started view ∈ (run moves {}).postings move →
    ∃ before last during done left, moves = before ++ last :: during ∧
      (run before {}).postings last = [.begun (done ++ view :: left)] ∧
      (run (before ++ [last]) {}).world.depth = 0 ∧
      (run moves {}).world.depth + tally closes during (run (before ++ [last]) {}) =
        tally opens during (run (before ++ [last]) {})
  /-- What waits is dropped only when the last tick is given up, and what is left of a batch only
  when the batch is. -/
  drops : ∀ (move : Move α β) (views : List ViewId),
    .dropped views ∈ (run moves {}).postings move → views ≠ [] →
      ((run moves {}).isUnwinding ∨ move.abandons) ∧ (run moves {}).world.depth = 1 ∧
        ((run moves {}).move move).world.depth = 0
  breaks : ∀ (move : Move α β) (views : List ViewId),
    .broken views ∈ (run moves {}).postings move → (run moves {}).isUnwinding
  scheduled : ∀ (view : ViewId) (v : View α β), (run moves {}).world.views[view]? = some v →
    (run moves {}).waiting.count view ≤ 1 ∧
      (v.live → (v.scheduled ↔ (run moves {}).waiting.count view = 1))

/-- Assumes: the batch that begins is not empty. -/
theorem depth_of_begun {move : Move α β}
    (h : .begun views ∈ (run moves ({} : Machine α β)).postings move) (hviews : views ≠ []) :
    (run moves ({} : Machine α β)).isUnwinding = false ∧
      (run moves ({} : Machine α β)).world.depth = 1 ∧
      ((run moves ({} : Machine α β)).move move).world.depth = 0 ∧
      views = (run moves ({} : Machine α β)).world.deferred := by
  have hposts := posts_move move (run moves ({} : Machine α β))
  generalize (run moves ({} : Machine α β)).postings move = postings at hposts h
  generalize (run moves ({} : Machine α β)).move move = m' at hposts
  cases hposts with
  | begun hcalm hreturning hstack' hbelow hworld =>
    obtain rfl : views = (run moves ({} : Machine α β)).world.closeTick.1 := by simpa using h
    obtain ⟨hdepth, htaken⟩ := depth_of_closeTick hviews
    exact ⟨hcalm, hdepth, by rw [hworld, World.depth_closeTick, hdepth], htaken⟩
  | _ => simp at h

/-- Assumes: something is dropped. -/
theorem depth_of_dropped {move : Move α β}
    (h : .dropped views ∈ (run moves ({} : Machine α β)).postings move) (hviews : views ≠ []) :
    ((run moves ({} : Machine α β)).isUnwinding ∨ move.abandons) ∧
      (run moves ({} : Machine α β)).world.depth = 1 ∧
      ((run moves ({} : Machine α β)).move move).world.depth = 0 := by
  have hposts := posts_move move (run moves ({} : Machine α β))
  generalize (run moves ({} : Machine α β)).postings move = postings at hposts h
  generalize (run moves ({} : Machine α β)).move move = m' at hposts
  cases hposts with
  | dropped hraised hbatches hworld =>
    obtain rfl : views = (run moves ({} : Machine α β)).world.closeTick.1 := by simpa using h
    obtain ⟨hdepth, -⟩ := depth_of_closeTick hviews
    exact ⟨hraised, hdepth, by rw [hworld, World.depth_abandonTick, hdepth]⟩
  | _ => simp at h

/-- The depth after a run in which the user ends only ticks of its own. -/
theorem depth_of_endsOwn (hown : Along EndsOwn moves ({} : Machine α β)) :
    closings (run moves ({} : Machine α β)).stack ≤ (run moves ({} : Machine α β)).world.depth ∧
      (run moves ({} : Machine α β)).world.depth + tally closes moves {} =
        closings (run moves ({} : Machine α β)).stack + tally opens moves {} := by
  obtain ⟨hclosings, hdepth⟩ := depth_run .start hown (Nat.zero_le _)
  refine ⟨hclosings, ?_⟩
  simpa [closings] using hdepth

/-- What a part of a run leaves open. -/
theorem depth_of_append {before after : List (Move α β)}
    (hown : Along EndsOwn (before ++ after) ({} : Machine α β)) :
    (run (before ++ after) ({} : Machine α β)).world.depth +
        closings (run before ({} : Machine α β)).stack + tally closes after (run before {}) =
      (run before ({} : Machine α β)).world.depth +
        closings (run (before ++ after) ({} : Machine α β)).stack +
          tally opens after (run before {}) := by
  obtain ⟨hbefore, hafter⟩ := along_append.mp hown
  rw [run_append]
  exact (depth_run (wired_run before) hafter (depth_of_endsOwn hbefore).1).2

theorem starts_run {move : Move α β} {next : ViewId}
    (hown : Along EndsOwn moves ({} : Machine α β))
    (h : .started next ∈ (run moves ({} : Machine α β)).postings move) :
    ∃ before last during done left, moves = before ++ last :: during ∧
      (run before ({} : Machine α β)).postings last = [.begun (done ++ next :: left)] ∧
      (run (before ++ [last]) ({} : Machine α β)).world.depth = 0 ∧
      (run moves ({} : Machine α β)).world.depth + tally closes during (run (before ++ [last]) {}) =
        tally opens during (run (before ++ [last]) {}) := by
  have hposts := posts_move move (run moves ({} : Machine α β))
  generalize (run moves ({} : Machine α β)).postings move = postings at hposts h
  generalize (run moves ({} : Machine α β)).move move = m' at hposts
  cases hposts with
  | @started _ view left answer below hstack hqueue hbatches =>
    obtain rfl : next = view := by simpa using h
    have hsuffix : .draining (next :: left) answer :: below <:+
        (run moves ({} : Machine α β)).stack := hstack ▸ List.suffix_refl _
    obtain ⟨before, last, during, done, rfl, hpostings, hbegan⟩ := exists_begun hsuffix
    have hdepth : (run (before ++ [last]) ({} : Machine α β)).world.depth = 0 := by
      have hmem : .begun (done ++ next :: left) ∈ (run before ({} : Machine α β)).postings last :=
        hpostings ▸ List.mem_singleton_self _
      rw [run_append]
      exact (depth_of_begun hmem (by simp)).2.2.1
    refine ⟨before, last, during, done, left, rfl, hpostings, hdepth, ?_⟩
    have hsplit : before ++ last :: during = (before ++ [last]) ++ during := by simp
    rw [hsplit] at hown hstack ⊢
    have htally := depth_of_append hown
    rw [hstack, hbegan, hdepth, closings_cons, closings_cons] at htally
    simp only [Frame.closes, Bool.toNat_false] at htally
    omega
  | _ => simp at h

/-- Ticks and compositions that are put off are accounted for after every run in which the user ends
only ticks of its own. -/
theorem postpones_run (hown : Along EndsOwn moves ({} : Machine α β)) : Postpones moves where
  ticks := (depth_of_endsOwn hown).2
  calls before call hstart hstack := by
    obtain ⟨rest, rfl⟩ := hstart
    have htally := depth_of_append (along_append.mp hown).1
    rw [hstack] at htally
    omega
  putsOff := putsOffInTicks_run moves
  tracks := tracks_run moves
  begins move views h hviews := depth_of_begun h hviews
  starts move next h := starts_run hown h
  drops move views h hviews := depth_of_dropped h hviews
  breaks move views h := by
    have hposts := posts_move move (run moves ({} : Machine α β))
    generalize (run moves ({} : Machine α β)).postings move = postings at hposts h
    generalize (run moves ({} : Machine α β)).move move = m' at hposts
    cases hposts with
    | broken hunwinding hstack hqueue => exact hunwinding
    | _ => simp at h
  scheduled view v hview := booked_run moves hview

/-- Two views are put off until the end of a tick. The callback that composes for the first one
opens a tick and raises, so the second one is dropped. It is put off anew, until that tick ends. -/
def raisedInBatch : List (Move Nat (List Nat)) :=
  Move.script 12 [.newSource "a", .newSource "b", .build [0] (.callback 0),
    .build [1] (.callback 1), .enterTick, .emit 0 (.loaded 1), .emit 1 (.loaded 2), .leaveTick,
    .enterTick, .raise "late", .emit 1 (.loaded 3), .leaveTick]

theorem postpones_raisedInBatch :
    Postpones raisedInBatch ∧
      (Account.of (posted raisedInBatch {})).started = [(0, 0), (1, 1), (2, 0), (4, 1)] ∧
      (Account.of (posted raisedInBatch {})).dropped = [(3, 1)] :=
  ⟨postpones_run (by decide +kernel), by decide +kernel, by decide +kernel⟩

end Machine

end LiveRecord.Flow
