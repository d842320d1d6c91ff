import LiveRecord.Proofs.Flow.Emission
import LiveRecord.Proofs.Flow.Restacking

/-!
# One poll of a feed

A poll of a stream emits the items that are ready and stops at the first one that is not, or at the
end (`Feed.emissions`, `Feed.polled`). While callbacks only record, it runs to its end, and the
world is then what these emissions make of it (`Machine.reaches_feed`). Nothing else is accepted
meanwhile: what was accepted and what feeds under way have still to emit add up to the same list
along every such run (`Machine.accepted_run`).
-/

set_option autoImplicit false

namespace LiveRecord.Flow

variable {α β : Type}

/-! ### What a poll makes of a feed -/

namespace FeedItem

def isReady (item : FeedItem α) : Bool := item.waits == 0

theorem event_ne_pending (item : FeedItem α) : item.event ≠ .pending := by
  unfold event
  split <;> simp

end FeedItem

namespace Feed

/-- The items that the next poll emits. -/
def ready (feed : Feed α) : List (FeedItem α) := feed.items.takeWhile (·.isReady)

/-- What the next poll emits. -/
def emissions (feed : Feed α) : List (SourceId × Event α) :=
  feed.ready.map fun item ↦ (feed.source, item.event)

/-- What the next poll answers, if the source accepts what it emits. -/
def polled (feed : Feed α) : FeedProgress α :=
  let left := { feed with accepted := feed.accepted + feed.ready.length }
  match feed.items.dropWhile (·.isReady) with
  | item :: rest => .pending { left with items := { item with waits := item.waits - 1 } :: rest }
  | [] =>
    match feed.endWaits with
    | 0 => .finished (.count left.accepted)
    | endWaits + 1 => .pending { left with items := [], endWaits }

variable {feed rest : Feed α} {progress : FeedProgress α} {event : Event α}

/-- A poll that stops at once. -/
theorem polled_of_stop (h : feed.next = .stop progress) :
    feed.emissions = [] ∧ feed.polled = progress := by
  obtain ⟨source, kind, items, accepted, endWaits⟩ := feed
  cases items with
  | nil =>
    cases endWaits with
    | zero => exact ⟨rfl, Next.stop.inj h⟩
    | succ endWaits => exact ⟨rfl, Next.stop.inj h⟩
  | cons item items =>
    obtain ⟨waits, result⟩ := item
    cases waits with
    | zero => simp [next] at h
    | succ waits =>
      simp only [next, Next.stop.injEq] at h
      subst h
      simp [emissions, polled, ready, FeedItem.isReady]

/-- A poll that emits goes on with what is left. -/
theorem polled_of_emit (h : feed.next = .emit event rest) :
    feed.emissions = (feed.source, event) :: rest.emissions ∧ event ≠ .pending ∧
      rest.source = feed.source ∧ rest.kind = feed.kind ∧
      rest.items.length < feed.items.length ∧
      feed.polled = { rest with accepted := rest.accepted + 1 }.polled := by
  obtain ⟨source, kind, items, accepted, endWaits⟩ := feed
  cases items with
  | nil => cases endWaits <;> simp [next] at h
  | cons item items =>
    obtain ⟨waits, result⟩ := item
    cases waits with
    | succ waits => simp [next] at h
    | zero =>
      simp only [next, Next.emit.injEq] at h
      obtain ⟨rfl, rfl⟩ := h
      refine ⟨?_, FeedItem.event_ne_pending _, rfl, rfl, Nat.lt_succ_self _, ?_⟩
      · simp [emissions, ready, FeedItem.isReady]
      · simp only [polled, ready, List.takeWhile_cons, List.dropWhile_cons, FeedItem.isReady,
          beq_self_eq_true, if_true, List.length_cons, Nat.add_assoc, Nat.add_comm 1]

/-- A stream takes note of an item and goes on. -/
theorem note_of_stream (h : feed.kind = .stream) (accepted : Bool) :
    feed.note accepted = .inr { feed with accepted := feed.accepted + accepted.toNat } := by
  rw [note, h]

end Feed

namespace Machine

/-! ### A poll runs to its end -/

section Poll

variable {answers : Nat → List α → β} {world : World α β} {stack : List (Frame α β)}
  {control : Control α β}

/-- Assumes: a stream for a source that is there. -/
theorem reaches_feed (feed : Feed α) (hkind : feed.kind = .stream)
    (hthere : feed.source < world.sources.length) (hcalm : world.Calm stack) :
    Reaches answers ((⟨world, stack, control⟩ : Machine α β).feed feed)
      ⟨world.emitAll answers feed.emissions, stack, .returning (.polled feed.polled)⟩ := by
  -- each round has one item less
  induction hlength : feed.items.length using Nat.strong_induction_on
    generalizing feed world control with
  | _ length ih =>
    cases hnext : feed.next with
    | stop progress =>
      obtain ⟨hnone, hpolled⟩ := Feed.polled_of_stop hnext
      simp only [Machine.feed, hnext, hnone, hpolled]
      exact .refl _
    | emit event rest =>
      obtain ⟨hemissions, hevent, hsource, hsame, hless, hpolled⟩ := Feed.polled_of_emit hnext
      let noted : Feed α := { rest with accepted := rest.accepted + 1 }
      let world' := world.emit answers feed.source event
      have hemitted : Reaches answers ((⟨world, stack, control⟩ : Machine α β).feed feed)
          ⟨world', .feeding rest :: stack, .returning (.accepted true)⟩ := by
        simp only [Machine.feed, hnext]
        exact reaches_emit (hcalm.push _) hthere hevent
      have hnoted : Reaches answers
          ⟨world', .feeding rest :: stack, .returning (.accepted true)⟩
          ((⟨world', stack, .returning (.accepted true)⟩ : Machine α β).feed noted) :=
        .resume (by simp only [Machine.resume, Feed.note_of_stream (hsame.trans hkind)]; rfl)
      have hlater : Reaches answers
          ((⟨world', stack, .returning (.accepted true)⟩ : Machine α β).feed noted)
          ⟨world'.emitAll answers noted.emissions, stack, .returning (.polled noted.polled)⟩ := by
        refine ih _ (hlength ▸ hless) noted (hsame.trans hkind) ?_ hcalm.emit rfl
        rw [World.length_sources_emit, show noted.source = feed.source from hsource]
        exact hthere
      rw [hemissions, hpolled]
      exact (hemitted.trans hnoted).trans hlater

end Poll

end Machine

/-! ### Feeds under way -/

/-- The feed that a frame goes on with. -/
def Frame.feed? : Frame α β → Option (Feed α)
  | feeding feed => some feed
  | _ => none

/-- The feeds that are polled, the innermost one first. -/
def feeders (stack : List (Frame α β)) : List (Feed α) := stack.filterMap (·.feed?)

/-- What polls that are under way have still to emit. -/
def upcoming (stack : List (Frame α β)) : List (SourceId × Event α) :=
  (feeders stack).flatMap (·.emissions)

theorem WorkFrames.feeders {view : ViewId} {new : List (Frame α β)} (h : WorkFrames view new)
    (stack : List (Frame α β)) : feeders (new ++ stack) = feeders stack := by
  cases h <;> rfl

namespace Machine

variable {answers : Nat → List α → β} {m : Machine α β} {move : Move α β} {moves : List (Move α β)}

/-- Every feed under way is a stream for a source that is there. -/
def Streams (m : Machine α β) : Prop :=
  ∀ feed ∈ feeders m.stack, feed.kind = .stream ∧ feed.source < m.world.sources.length

theorem feeders_hear (view : ViewId) (slot : Nat) (event : Event α) (m : Machine α β) :
    feeders (m.hear view slot event).stack = feeders m.stack := by
  rcases hear_stack view slot event m with hstack | ⟨new, hnew, hstack⟩
  · rw [hstack]
  · rw [hstack, hnew.feeders]
    rfl

theorem feeders_work {m' : Machine α β} {view : ViewId} {stack : List (Frame α β)}
    (h : ∃ new, WorkFrames view new ∧ m'.stack = new ++ stack) :
    feeders m'.stack = feeders stack := by
  obtain ⟨new, hnew, hstack⟩ := h
  rw [hstack, hnew.feeders]

/-- Without a feed on top of the stack, a step of the core leaves the feeds alone. -/
theorem feeders_resume (answer : Answer α β)
    (htop : ∀ rest below, m.stack ≠ .feeding rest :: below) :
    feeders (m.resume answer).stack = feeders m.stack := by
  have hresumes := m.resumes answer
  generalize m.resume answer = m' at hresumes ⊢
  cases hresumes with
  | rest | calling => rfl
  | closing hstack | drained hstack | skipDelivery hstack | callListener hstack | delivered hstack
  | skipAnnouncement hstack | callViewer hstack | announced hstack | fail hstack | composed hstack
  | subscribed hstack | built hstack =>
    rw [hstack]
    rfl
  | drain hstack =>
    rw [hstack]
    unfold runDeferred
    split
    · rfl
    · exact (feeders_work (flush_stack _ _)).trans rfl
  | hear hstack =>
    rw [hstack]
    exact feeders_hear _ _ _ _
  | compose hstack =>
    rw [hstack]
    exact (feeders_work (composeIfDue_stack _ _)).trans rfl
  | notComposed hstack | settle hstack =>
    rw [hstack]
    exact (feeders_work (settle_stack _ _)).trans rfl
  | release hstack | subscribedView hstack =>
    rw [hstack]
    simp only [returning, release_stack]
    rfl
  | connect hstack =>
    rw [hstack]
    unfold connect
    split
    · rfl
    · exact feeders_hear _ _ _ _
  | connected hstack =>
    rw [hstack]
    exact (feeders_work (requestCompose_stack _ _)).trans rfl
  | fed hstack | feed hstack => exact absurd hstack (htop _ _)

/-- A feed goes on: what it emits next is accepted. Assumes: a stream for a source that is there. -/
theorem accepted_feed (feed : Feed α) (hkind : feed.kind = .stream)
    (hthere : feed.source < m.world.sources.length) :
    acceptedIn (m.feedNotices feed) ++ upcoming (m.feed feed).stack =
        feed.emissions ++ upcoming m.stack ∧
      ∀ other ∈ feeders (m.feed feed).stack, other ∈ feeders m.stack ∨
        other.kind = .stream ∧ other.source = feed.source := by
  cases hnext : feed.next with
  | stop progress =>
    simp only [feedNotices, Machine.feed, hnext, (Feed.polled_of_stop hnext).1]
    exact ⟨rfl, fun _ hother ↦ .inl hother⟩
  | emit event rest =>
    obtain ⟨hemissions, hevent, hsource, hsame, -, -⟩ := Feed.polled_of_emit hnext
    have haccepted : m.emitNotices feed.source event = [.accepted feed.source event] := by
      simp only [emitNotices, List.getElem?_eq_getElem hthere]
      split
      case h_1 => contradiction
      case h_2 => rfl
    have hfeeders : feeders ((m.push (.feeding rest)).emit feed.source event).stack =
        rest :: feeders m.stack := by
      unfold Machine.emit
      split
      · rfl
      · split <;> rfl
    simp only [feedNotices, Machine.feed, hnext]
    constructor
    · rw [upcoming, hfeeders, List.flatMap_cons, hemissions]
      show acceptedIn (m.emitNotices feed.source event) ++ _ = _
      rw [haccepted]
      rfl
    · intro other hother
      rw [hfeeders] at hother
      refine (List.mem_cons.mp hother).symm.imp_right ?_
      rintro rfl
      exact ⟨hsame.trans hkind, hsource⟩

/-- A source stays. -/
theorem lt_length_sources_move {source : SourceId} (move : Move α β)
    (h : source < m.world.sources.length) : source < (m.move move).world.sources.length := by
  have hkept : ∀ w w' : World α β, source < w.sources.length → w.Change m.MayListen w' →
      source < w'.sources.length := by
    intro w w' hw hchange
    obtain ⟨s', hs', -⟩ := hchange.exists_source (List.getElem?_eq_getElem hw)
    exact (List.getElem?_eq_some_iff.mp hs').1
  exact (changes_move move m).preserves hkept h

/-- Assumes: feeds that stay are streams, and new ones are streams for sources that are there. -/
theorem Streams.after (h : m.Streams) (move : Move α β)
    (hfeeders : ∀ feed ∈ feeders (m.move move).stack, feed ∈ feeders m.stack ∨
      feed.kind = .stream ∧ feed.source < m.world.sources.length) : (m.move move).Streams := by
  intro feed hfeed
  have hfound := (hfeeders feed hfeed).elim (h feed) id
  exact ⟨hfound.1, lt_length_sources_move move hfound.2⟩

/-! ### Runs of one poll -/

/-- Something was raised, and the user has not been answered since. -/
def hasRaised (m : Machine α β) : Bool :=
  match m.control with
  | .unwinding _ | .user (.raised _) => true
  | _ => false

theorem control_giveUp (message : String) (m : Machine α β) :
    (m.giveUp message).control = .user (.raised message) ∨
      (m.giveUp message).control = m.control := by
  have hgivesUp := m.givesUp message
  generalize m.giveUp message = m' at hgivesUp ⊢
  cases hgivesUp with
  | rest | calling => exact .inl rfl
  | holding | building | subscribingView => exact .inr (control_release _ _)
  | closing | draining | composing | subscribing | pop => exact .inr rfl

/-- A user that only records leaves it at that when something was raised. -/
theorem hasRaised_move (hmove : m.Records answers move) (h : m.hasRaised) :
    (m.move move).hasRaised := by
  unfold hasRaised at h
  split at h
  case h_1 message hcontrol =>
    obtain rfl : move = .advance := by rw [hmove, reply, hcontrol]
    simp only [Machine.move, advance, hcontrol, hasRaised]
    rcases control_giveUp message m with heq | heq
    · rw [heq]
    · rw [heq, hcontrol]
  case h_2 message hcontrol =>
    obtain rfl : move = .advance := by rw [hmove, reply, hcontrol]
    simp only [Machine.move, advance, hcontrol, hasRaised]
  case h_3 => contradiction

theorem hasRaised_run (hmoves : Along (Records answers) moves m) (h : m.hasRaised) :
    (m.run moves).hasRaised := by
  induction moves generalizing m with
  | nil => exact h
  | cons move rest ih => exact ih hmoves.2 (hasRaised_move hmoves.1 h)

/-- Where the user has control, it ends a callback or does nothing. -/
theorem accepted_reply {heard : Heard α β} (hcontrol : m.control = .user heard)
    (hmove : m.Records answers move) :
    acceptedIn (m.notices move) = [] ∧ feeders (m.move move).stack = feeders m.stack := by
  cases heard with
  | called call =>
    have hrequest : ∃ request, move = .request request ∧
        (request = .finish ∨ ∃ value, request = .compose value) := by
      cases call with
      | compose key inputs => exact ⟨_, by rw [hmove, reply, hcontrol], .inr ⟨_, rfl⟩⟩
      | _ => exact ⟨_, by rw [hmove, reply, hcontrol], .inl rfl⟩
    obtain ⟨request, rfl, rfl | ⟨value, rfl⟩⟩ := hrequest
    · refine ⟨by simp [notices, hcontrol, requestNotices, acceptedIn], ?_⟩
      simp only [Machine.move, submit, hcontrol, serve]
      split
      case h_1 hstack | h_2 hstack => rw [hstack]; rfl
      case h_3 => rfl
    · refine ⟨by simp [notices, hcontrol, requestNotices, acceptedIn], ?_⟩
      simp only [Machine.move, submit, hcontrol, serve]
      split
      case h_1 hstack => rw [hstack]; rfl
      case h_2 => rfl
  | _ =>
    obtain rfl : move = .advance := by rw [hmove, reply, hcontrol]
    simp [notices, hcontrol, acceptedIn, Machine.move, advance]

/-- A feed on top of the stack goes on with what is left, whatever the source answered. -/
theorem advance_of_feeding {answer : Answer α β} {feed : Feed α} {below : List (Frame α β)}
    (hcontrol : m.control = .returning answer) (hstack : m.stack = .feeding feed :: below)
    (hkind : feed.kind = .stream) :
    ∃ left : Feed α, left.kind = .stream ∧ left.source = feed.source ∧
      left.emissions = feed.emissions ∧
      m.notices .advance = ({ m with stack := below } : Machine α β).feedNotices left ∧
      m.move .advance = ({ m with stack := below } : Machine α β).feed left := by
  cases answer with
  | accepted accepted =>
    refine ⟨{ feed with accepted := feed.accepted + accepted.toNat }, hkind, rfl, rfl, ?_, ?_⟩
    · simp only [notices, hcontrol, resumeNotices, hstack, Feed.note_of_stream hkind]
      rfl
    · simp only [Machine.move, advance, hcontrol, resume, hstack, Feed.note_of_stream hkind]
  | _ =>
    refine ⟨feed, hkind, rfl, rfl, ?_, ?_⟩
    · simp only [notices, hcontrol, resumeNotices, hstack]
      rfl
    · simp only [Machine.move, advance, hcontrol, resume, hstack]

/-- A user that only records moves events from what is upcoming to what was accepted. Assumes:
nothing was raised. -/
theorem accepted_move (h : m.Streams) (hmove : m.Records answers move)
    (hcalm : m.hasRaised = false) :
    acceptedIn (m.notices move) ++ upcoming (m.move move).stack = upcoming m.stack ∧
      (m.move move).Streams := by
  have hkept : acceptedIn (m.notices move) = [] ∧ feeders (m.move move).stack = feeders m.stack →
      acceptedIn (m.notices move) ++ upcoming (m.move move).stack = upcoming m.stack ∧
        (m.move move).Streams := by
    rintro ⟨hnone, hsame⟩
    refine ⟨by rw [hnone, upcoming, hsame]; rfl, h.after move fun feed hfeed ↦ ?_⟩
    exact .inl (hsame ▸ hfeed)
  cases hcontrol : m.control with
  | unwinding message => simp [hasRaised, hcontrol] at hcalm
  | user heard => exact hkept (accepted_reply hcontrol hmove)
  | returning answer =>
    obtain rfl : move = .advance := by rw [hmove, reply, hcontrol]
    by_cases htop : ∃ feed below, m.stack = .feeding feed :: below
    case neg =>
      have hother : ∀ feed below, m.stack ≠ .feeding feed :: below := fun feed below hstack ↦
        htop ⟨feed, below, hstack⟩
      refine hkept ⟨?_, ?_⟩
      · simpa only [notices, hcontrol] using acceptedIn_resumeNotices answer hother
      · simpa only [Machine.move, advance, hcontrol] using feeders_resume answer hother
    case pos =>
      obtain ⟨feed, below, hstack⟩ := htop
      have hfeeders : feeders m.stack = feed :: feeders below := by
        rw [hstack]
        rfl
      obtain ⟨hkind, hthere⟩ := h feed (hfeeders ▸ List.mem_cons_self)
      obtain ⟨left, hstream, hsource, hemissions, hnotices, hmoved⟩ :=
        advance_of_feeding hcontrol hstack hkind
      obtain ⟨haccepted, hfed⟩ := @accepted_feed α β { m with stack := below } left hstream
        (hsource ▸ hthere)
      constructor
      · rw [hnotices, hmoved, haccepted, hemissions, upcoming, upcoming, hfeeders,
          List.flatMap_cons]
      · refine h.after .advance fun other hother ↦ ?_
        rw [hmoved] at hother
        refine (hfed other hother).imp (fun hbelow ↦ ?_) fun hnew ↦ ⟨hnew.1, ?_⟩
        · rw [hfeeders]
          exact List.mem_cons_of_mem _ hbelow
        · rw [hnew.2, hsource]
          exact hthere

/-- While a user only records, exactly what was upcoming is accepted, in order. Assumes: nothing was
raised in the run. -/
theorem accepted_run (h : m.Streams) (hmoves : Along (Records answers) moves m)
    (hcalm : (m.run moves).hasRaised = false) :
    acceptedIn (m.history moves) ++ upcoming (m.run moves).stack = upcoming m.stack := by
  induction moves generalizing m with
  | nil => rfl
  | cons move rest ih =>
    have hstart : m.hasRaised = false := by
      rw [Bool.eq_false_iff]
      intro hraised
      rw [hasRaised_run hmoves hraised] at hcalm
      contradiction
    obtain ⟨hmove, hstreams⟩ := accepted_move h hmoves.1 hstart
    rw [← hmove, ← ih hstreams hmoves.2 hcalm, ← List.append_assoc]
    simp only [history, acceptedIn, List.filterMap_append, run_cons]

end Machine

end LiveRecord.Flow
