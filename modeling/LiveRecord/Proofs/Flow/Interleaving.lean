import Mathlib.Data.List.TakeWhile
import LiveRecord.Proofs.Flow.Delivery
import LiveRecord.Proofs.Flow.Feeding
import LiveRecord.Proofs.Flow.Freshness
import LiveRecord.Proofs.Flow.Performance
import LiveRecord.Proofs.Flow.Promptness
import LiveRecord.Proofs.Flow.Quiescence

/-!
# Feeds that are polled in turns

A schedule says which of several feeds is polled next (`Machine.Drives`). After any number of polls
a feed has emitted a first part of its events and still holds the others (`Feed.Polled`), whatever
happened to the other feeds in between, so that nothing is lost and nothing is emitted twice. What a
view shows in the end depends on the values that its feeds end with, and not on the schedule
(`Machine.lossless_of_drives`).
-/

set_option autoImplicit false

namespace LiveRecord.Flow

variable {α β : Type}

/-! ### What a feed has answered -/

namespace Feed

/-- The events of the items that are still to come. -/
def events (feed : Feed α) : List (Event α) := feed.items.map (·.event)

/-- How often the feed is polled until it finishes. -/
def polls (feed : Feed α) : Nat := (feed.items.map (·.waits)).sum + feed.endWaits + 1

/-- The value of the last item, if it does not fail. -/
def lastValue? (feed : Feed α) : Option α := feed.items.getLast?.bind (·.result.toOption)

/-- What a feed has answered after this many polls, when its source has accepted these events. -/
inductive Polled (feed : Feed α) (count : Nat) (done : List (Event α)) : FeedProgress α → Prop
  | pending {rest : Feed α} (hsource : rest.source = feed.source) (hkind : rest.kind = feed.kind)
      (haccepted : rest.accepted = feed.accepted + done.length)
      (hevents : done ++ rest.events = feed.events) (hpolls : count + rest.polls = feed.polls) :
      Polled feed count done (.pending rest)
  | finished (hevents : done = feed.events) (hpolls : count = feed.polls) :
      Polled feed count done (.finished (.count (feed.accepted + done.length)))

variable {feed rest : Feed α} {count : Nat} {done : List (Event α)} {progress : FeedProgress α}

theorem getLast?_events_of_lastValue? {value : α} (h : feed.lastValue? = some value) :
    feed.events.getLast? = some (.loaded value) := by
  obtain ⟨⟨waits, result⟩, hitem, hvalue⟩ := Option.bind_eq_some_iff.mp h
  rw [events, List.getLast?_map, hitem]
  cases result with
  | ok other =>
    obtain rfl := Option.some.inj hvalue
    rfl
  | error error => contradiction

theorem Polled.start (feed : Feed α) : feed.Polled 0 [] (.pending feed) :=
  .pending rfl rfl rfl rfl (Nat.zero_add _)

theorem Polled.count_le (h : feed.Polled count done progress) : count ≤ feed.polls := by
  cases h with
  | pending _ _ _ _ hpolls => exact hpolls ▸ Nat.le_add_right _ _
  | finished _ hpolls => exact hpolls.le

theorem Polled.isPrefix (h : feed.Polled count done progress) : done <+: feed.events := by
  cases h with
  | pending _ _ _ hevents _ => exact ⟨_, hevents⟩
  | finished hevents _ => exact hevents ▸ List.prefix_rfl

/-- Before its last poll, a feed is pending. -/
theorem Polled.pending_of_lt (h : feed.Polled count done progress) (hcount : count < feed.polls) :
    ∃ rest, progress = .pending rest := by
  cases h with
  | pending => exact ⟨_, rfl⟩
  | finished _ hpolls => exact absurd hpolls hcount.ne

/-- At its last poll, a feed finishes, and all of its events have been accepted. -/
theorem Polled.finished_of_eq (h : feed.Polled count done progress) (hcount : count = feed.polls) :
    done = feed.events ∧
      progress = .finished (.count (feed.accepted + feed.items.length)) := by
  cases h with
  | @pending rest _ _ _ _ hpolls =>
    have hleft : 0 < rest.polls := Nat.succ_pos _
    omega
  | finished hevents _ =>
    refine ⟨hevents, ?_⟩
    rw [hevents, events, List.length_map]

/-- The items that are ready wait no longer, and the next one still does. -/
theorem sum_waits (feed : Feed α) : (feed.items.map (·.waits)).sum =
    ((feed.items.dropWhile (·.isReady)).map (·.waits)).sum := by
  conv_lhs => rw [← List.takeWhile_append_dropWhile (p := (·.isReady)) (l := feed.items)]
  rw [List.map_append, List.sum_append, Nat.add_eq_right]
  refine List.sum_eq_zero_iff_forall_eq_nat.mpr fun waits hwaits ↦ ?_
  obtain ⟨item, hitem, rfl⟩ := List.mem_map.mp hwaits
  have hready := List.mem_takeWhile_imp hitem
  exact beq_iff_eq.mp hready

/-- One more poll. -/
theorem Polled.poll (h : feed.Polled count done (.pending rest)) :
    feed.Polled (count + 1) (done ++ rest.ready.map (·.event)) rest.polled := by
  cases h with
  | pending hsource hkind haccepted hevents hpolls =>
    have hsplit : done ++ (rest.ready.map (·.event) ++
        (rest.items.dropWhile (·.isReady)).map (·.event)) = feed.events := by
      rw [← List.map_append, ready, List.takeWhile_append_dropWhile]
      exact hevents
    have hlength : rest.accepted + rest.ready.length =
        feed.accepted + (done ++ rest.ready.map (·.event)).length := by
      rw [haccepted, List.length_append, List.length_map, Nat.add_assoc]
    rw [polls, sum_waits] at hpolls
    unfold polled
    dsimp only
    cases hleft : rest.items.dropWhile (·.isReady) with
    | cons item left =>
      rw [hleft] at hsplit hpolls
      have hwaits : 0 < item.waits := by
        have hnot := List.head?_dropWhile_not (·.isReady) rest.items
        rw [hleft] at hnot
        exact Nat.pos_of_ne_zero (by simpa [FeedItem.isReady] using hnot)
      refine .pending hsource hkind hlength ?_ ?_
      · rw [List.append_assoc]
        exact hsplit
      · rw [List.map_cons, List.sum_cons] at hpolls
        rw [polls, List.map_cons, List.sum_cons]
        dsimp only
        omega
    | nil =>
      rw [hleft] at hsplit hpolls
      rw [List.map_nil, List.append_nil] at hsplit
      cases hend : rest.endWaits with
      | zero =>
        rw [hend] at hpolls
        simp only [hlength]
        exact .finished hsplit hpolls
      | succ endWaits =>
        rw [hend] at hpolls
        refine .pending hsource hkind hlength ?_ ?_
        · rw [← hsplit]
          exact List.append_nil _
        · simp only [polls, List.map_nil, List.sum_nil, Nat.zero_add] at hpolls ⊢
          omega

theorem emittedOn_emissions (source : SourceId) (feed : Feed α) :
    emittedOn source feed.emissions =
      if feed.source = source then feed.ready.map (·.event) else [] := by
  rw [emissions, emittedOn, List.filterMap_map]
  split
  case isTrue hsource =>
    rw [← List.filterMap_eq_map]
    exact List.filterMap_congr fun item _ ↦ if_pos hsource
  case isFalse hsource => exact List.filterMap_eq_nil_iff.mpr fun item _ ↦ if_neg hsource

end Feed

/-! ### Several feeds -/

/-- What the feeds have answered when each of them has been polled as often as `done` says, and its
source has accepted what `past` holds for it. -/
structure Underway (feeds : List (Feed α)) (done : List Nat) (past : List (SourceId × Event α))
    (futures : List (FeedProgress α)) : Prop where
  length : futures.length = feeds.length
  polled : ∀ (k : Nat) feed, feeds[k]? = some feed → ∃ progress, futures[k]? = some progress ∧
    feed.Polled (done.count k) (emittedOn feed.source past) progress

/-- Streams that feed sources of their own. -/
structure Separate (feeds : List (Feed α)) : Prop where
  stream : ∀ feed ∈ feeds, feed.kind = .stream
  distinct : (feeds.map (·.source)).Nodup

/-- Every input of the view is fed by a feed that finishes in the schedule, with this value last. -/
def View.FedBy (feeds : List (Feed α)) (schedule : List Nat) (values : List α) (v : View α β) :
    Prop :=
  List.Forall₂ (fun input value ↦ ∃ (k : Nat) (feed : Feed α), feeds[k]? = some feed ∧
    feed.source = input.1 ∧ schedule.count k = feed.polls ∧ feed.lastValue? = some value)
    v.inputs values

section Underway

variable {feeds : List (Feed α)} {done : List Nat} {past : List (SourceId × Event α)}
  {futures : List (FeedProgress α)} {k : Nat} {feed rest : Feed α}

theorem Separate.source_ne (h : Separate feeds) {i : Nat} {other : Feed α}
    (hfeed : feeds[k]? = some feed) (hother : feeds[i]? = some other) (hne : k ≠ i) :
    feed.source ≠ other.source := by
  intro hsame
  refine hne ((List.getElem?_inj ?_ h.distinct).mp ?_)
  · rw [List.length_map]
    exact (List.getElem?_eq_some_iff.mp hfeed).1
  · rw [List.getElem?_map, List.getElem?_map, hfeed, hother, Option.map_some, Option.map_some,
      hsame]

theorem Underway.start (feeds : List (Feed α)) : Underway feeds [] [] (feeds.map .pending) where
  length := List.length_map _
  polled k feed hfeed := ⟨.pending feed, by rw [List.getElem?_map, hfeed]; rfl, .start feed⟩

/-- The feed that a pending future is about. -/
theorem Underway.exists_feed (h : Underway feeds done past futures)
    (hfuture : futures[k]? = some (.pending rest)) :
    ∃ feed, feeds[k]? = some feed ∧
      feed.Polled (done.count k) (emittedOn feed.source past) (.pending rest) := by
  have hbound : k < feeds.length := h.length ▸ (List.getElem?_eq_some_iff.mp hfuture).1
  have hfeed := List.getElem?_eq_getElem hbound
  obtain ⟨progress, hprogress, hpolled⟩ := h.polled k _ hfeed
  obtain rfl := Option.some.inj (hfuture.symm.trans hprogress)
  exact ⟨_, hfeed, hpolled⟩

theorem Underway.pending_spec (h : Underway feeds done past futures) (hfeeds : Separate feeds)
    (hfuture : futures[k]? = some (.pending rest)) :
    rest.kind = .stream ∧ ∃ feed ∈ feeds, rest.source = feed.source := by
  obtain ⟨feed, hfeed, hpolled⟩ := h.exists_feed hfuture
  have hmem := List.mem_of_getElem? hfeed
  cases hpolled with
  | pending hsource hkind => exact ⟨hkind.trans (hfeeds.stream feed hmem), feed, hmem, hsource⟩

/-- The last event of every source that feeds the view is the value that its feed ends with. -/
theorem Underway.loaded_of_fedBy {v : View α β} {values : List α}
    (h : Underway feeds done past futures) (hfed : v.FedBy feeds done values) :
    List.Forall₂ (fun input value ↦ (emittedOn input.1 past).getLast? = some (.loaded value))
      v.inputs values := by
  refine List.Forall₂.imp ?_ hfed
  rintro input value ⟨k, feed, hfeed, hsource, hcount, hvalue⟩
  obtain ⟨progress, -, hpolled⟩ := h.polled k feed hfeed
  rw [← hsource, (hpolled.finished_of_eq hcount).1]
  exact feed.getLast?_events_of_lastValue? hvalue

/-- One poll of one of the feeds leaves the others where they are. -/
theorem Underway.poll (h : Underway feeds done past futures) (hfeeds : Separate feeds)
    (hfuture : futures[k]? = some (.pending rest)) :
    Underway feeds (done ++ [k]) (past ++ rest.emissions) (futures.set k rest.polled) where
  length := by rw [List.length_set, h.length]
  polled i other hother := by
    obtain ⟨feed, hfeed, hpolled⟩ := h.exists_feed hfuture
    have hsource : rest.source = feed.source := by
      cases hpolled with
      | pending hsource => exact hsource
    rw [emittedOn_append, Feed.emittedOn_emissions, hsource, List.count_append,
      List.count_singleton]
    by_cases hk : k = i
    · subst hk
      obtain rfl := Option.some.inj (hfeed.symm.trans hother)
      refine ⟨rest.polled, ?_, ?_⟩
      · exact List.getElem?_set_self (List.getElem?_eq_some_iff.mp hfuture).1
      · rw [if_pos rfl, if_pos (beq_self_eq_true k)]
        exact hpolled.poll
    · obtain ⟨progress, hprogress, hsame⟩ := h.polled i other hother
      refine ⟨progress, (List.getElem?_set_ne hk).trans hprogress, ?_⟩
      rw [if_neg (hfeeds.source_ne hfeed hother hk), if_neg (by simpa using hk), List.append_nil]
      exact hsame

end Underway

namespace Machine

variable {answers : Nat → List α → β} {m : Machine α β} {moves : List (Move α β)}

/-! ### One poll at rest -/

/-- What a feed makes of a machine at rest. -/
def afterPoll (answers : Nat → List α → β) (feed : Feed α) (m : Machine α β) : Machine α β :=
  { world := m.world.emitAll answers feed.emissions
    stack := []
    control := .user (.answered (.polled feed.polled)) }

section Poll

variable {feed : Feed α}

theorem atRest_afterPoll (answers : Nat → List α → β) (feed : Feed α) (m : Machine α β) :
    (m.afterPoll answers feed).AtRest :=
  ⟨rfl, rfl⟩

/-- Assumes: a stream for a source that is there. -/
theorem reaches_poll (hrest : m.AtRest) (hcalm : m.world.Calm []) (hkind : feed.kind = .stream)
    (hthere : feed.source < m.world.sources.length) :
    Reaches answers (m.submit (.poll feed)) (m.afterPoll answers feed) := by
  obtain ⟨world, stack, control⟩ := m
  obtain ⟨hstack, huser⟩ := hrest
  dsimp only at hstack
  subst hstack
  rw [submit_eq_serve huser]
  exact (reaches_feed feed hkind hthere hcalm).trans (.resume rfl)

/-- However the machine comes to rest, it is the same one, and what it has accepted is what the feed
emits. Assumes: a stream for a source that is there. -/
theorem run_poll (hrest : m.AtRest) (hcalm : m.world.Calm []) (hkind : feed.kind = .stream)
    (hthere : feed.source < m.world.sources.length)
    (hmoves : Along (Records answers) moves (m.submit (.poll feed)))
    (hlast : ((m.submit (.poll feed)).run moves).AtRest) :
    (m.submit (.poll feed)).run moves = m.afterPoll answers feed ∧
      acceptedIn (m.notices (.request (.poll feed)) ++ (m.submit (.poll feed)).history moves) =
        feed.emissions := by
  have hreaches : Reaches answers (m.submit (.poll feed)) (m.afterPoll answers feed) :=
    reaches_poll hrest hcalm hkind hthere
  obtain ⟨others, hothers, hrun⟩ := hreaches
  have hended : (m.submit (.poll feed)).run moves = m.afterPoll answers feed := by
    rw [← hrun]
    exact (records_unique hmoves hothers hlast (hrun ▸ atRest_afterPoll answers feed m)).1
  refine ⟨hended, ?_⟩
  obtain ⟨haccepted, hfed⟩ := accepted_feed feed hkind hthere
  have hserved : m.submit (.poll feed) = m.feed feed := submit_eq_serve hrest.2 _
  have hempty : feeders m.stack = [] := by rw [hrest.1]; rfl
  have hstreams : (m.feed feed).Streams := by
    intro other hother
    have hnew := (hfed other hother).resolve_left (by simp [hempty])
    refine ⟨hnew.1, ?_⟩
    rw [hnew.2, ← hserved]
    exact lt_length_sources_move (.request (.poll feed)) hthere
  -- the poll has ended, so everything that was upcoming has been accepted
  have hlater : acceptedIn ((m.feed feed).history moves) = upcoming (m.feed feed).stack := by
    rw [hserved] at hmoves hended
    have hboth := accepted_run hstreams hmoves (by rw [hended]; rfl)
    rw [hended] at hboth
    exact (List.append_nil _).symm.trans hboth
  have hfirst : m.notices (.request (.poll feed)) = m.feedNotices feed := notices_request hrest.2 _
  rw [hserved, hfirst, acceptedIn, List.filterMap_append]
  show acceptedIn _ ++ acceptedIn _ = _
  rw [hlater, haccepted, upcoming, hempty]
  exact List.append_nil _

end Poll

/-! ### Many polls -/

/-- The run polls the futures in the order of the schedule, each time at rest, and otherwise the
user only records. -/
inductive Drives (answers : Nat → List α → β) : List (FeedProgress α) → List Nat →
    List (Move α β) → Machine α β → List (FeedProgress α) → Prop
  | nil {futures : List (FeedProgress α)} {m : Machine α β} (hrest : m.AtRest) :
      Drives answers futures [] [] m futures
  | poll {futures last : List (FeedProgress α)} {k : Nat} {schedule : List Nat}
      {moves rest : List (Move α β)} {m : Machine α β} {feed : Feed α} {progress : FeedProgress α}
      (hrest : m.AtRest) (hfuture : futures[k]? = some (.pending feed))
      (hrecords : Along (Records answers) moves (m.submit (.poll feed)))
      (hanswer : ((m.submit (.poll feed)).run moves).control = .user (.answered (.polled progress)))
      (hlater : Drives answers (futures.set k progress) schedule rest
        ((m.submit (.poll feed)).run moves) last) :
      Drives answers futures (k :: schedule) (.request (.poll feed) :: (moves ++ rest)) m last

section Drives

variable {feeds : List (Feed α)} {done schedule : List Nat} {past : List (SourceId × Event α)}
  {futures last : List (FeedProgress α)} {k : Nat} {feed : Feed α}

theorem Drives.atRest (h : Drives answers futures schedule moves m last) : m.AtRest := by
  cases h with
  | nil hrest => exact hrest
  | poll hrest => exact hrest

theorem Drives.lt_length (h : Drives answers futures schedule moves m last) :
    ∀ k ∈ schedule, k < futures.length := by
  induction h with
  | nil => simp
  | poll _ hfuture _ _ _ ih =>
    intro k hk
    rcases List.mem_cons.mp hk with rfl | hlater
    · exact (List.getElem?_eq_some_iff.mp hfuture).1
    · exact List.length_set ▸ ih k hlater

/-- The sources of the feeds are there, and no view has to be taken apart. -/
structure Feedable (feeds : List (Feed α)) (world : World α β) : Prop where
  there : ∀ feed ∈ feeds, feed.source < world.sources.length
  calm : world.Calm []

theorem Feedable.emitAll {world : World α β} (h : Feedable feeds world)
    (emissions : List (SourceId × Event α)) : Feedable feeds (world.emitAll answers emissions) where
  there feed hfeed := by
    rw [World.length_sources_emitAll]
    exact h.there feed hfeed
  calm := h.calm.emitAll emissions

/-- One poll of a schedule. -/
theorem poll_of_underway (answers : Nat → List α → β) (hrest : m.AtRest) (hfeeds : Separate feeds)
    (hfeedable : Feedable feeds m.world) (h : Underway feeds done past futures)
    (hfuture : futures[k]? = some (.pending feed)) :
    Reaches answers (m.submit (.poll feed)) (m.afterPoll answers feed) ∧
    ∀ moves, Along (Records answers) moves (m.submit (.poll feed)) →
      ((m.submit (.poll feed)).run moves).AtRest →
      (m.submit (.poll feed)).run moves = m.afterPoll answers feed ∧
        acceptedIn (m.notices (.request (.poll feed)) ++ (m.submit (.poll feed)).history moves) =
          feed.emissions := by
  obtain ⟨hkind, other, hother, hsource⟩ := h.pending_spec hfeeds hfuture
  have hthere : feed.source < m.world.sources.length := hsource ▸ hfeedable.there other hother
  exact ⟨reaches_poll hrest hfeedable.calm hkind hthere, fun moves hmoves hlast ↦
    run_poll hrest hfeedable.calm hkind hthere hmoves hlast⟩

/-- After any number of polls, each feed has emitted a first part of its events and nothing else was
accepted, and the world is what these emissions make of it. -/
theorem Drives.run (h : Drives answers futures schedule moves m last) (hfeeds : Separate feeds)
    (hfeedable : Feedable feeds m.world) (hstart : Underway feeds done past futures) :
    Underway feeds (done ++ schedule) (past ++ acceptedIn (m.history moves)) last ∧
      (m.run moves).world = m.world.emitAll answers (acceptedIn (m.history moves)) := by
  induction h generalizing done past with
  | nil =>
    rw [List.append_nil, show acceptedIn (history [] _) = [] from rfl, List.append_nil]
    exact ⟨hstart, rfl⟩
  | @poll futures last k schedule moves rest m feed progress hrest hfuture hrecords hanswer hlater
      ih =>
    obtain ⟨-, hunique⟩ := poll_of_underway answers hrest hfeeds hfeedable hstart hfuture
    obtain ⟨hended, haccepted⟩ := hunique moves hrecords hlater.atRest
    rw [hended] at hanswer ih
    obtain rfl : feed.polled = progress := by simpa [afterPoll] using hanswer
    obtain ⟨hunderway, hrun⟩ :=
      ih (hfeedable.emitAll feed.emissions) (hstart.poll hfeeds hfuture)
    have hhistory : acceptedIn (m.history (.request (.poll feed) :: (moves ++ rest))) =
        feed.emissions ++ acceptedIn ((m.afterPoll answers feed).history rest) := by
      rw [← haccepted, ← hended, history, acceptedIn, acceptedIn, acceptedIn]
      show List.filterMap _ (_ ++ (m.submit (.poll feed)).history (moves ++ rest)) = _
      rw [history_append, ← List.append_assoc, List.filterMap_append]
    rw [hhistory]
    constructor
    · rw [List.append_assoc, List.append_assoc] at hunderway
      exact hunderway
    · rw [run_cons, run_append, World.emitAll_append]
      show (((m.submit (.poll feed)).run moves).run rest).world = _
      rw [hended]
      exact hrun

/-- Feeds can be polled in any order, as long as none is polled after it has finished. -/
theorem exists_drives (hrest : m.AtRest) (hfeeds : Separate feeds)
    (hfeedable : Feedable feeds m.world) (hstart : Underway feeds done past futures)
    (hschedule : ∀ k ∈ schedule, ∃ feed, feeds[k]? = some feed ∧
      done.count k + schedule.count k ≤ feed.polls) :
    ∃ moves last, Drives answers futures schedule moves m last := by
  induction schedule generalizing m done past futures with
  | nil => exact ⟨[], futures, .nil hrest⟩
  | cons k schedule ih =>
    obtain ⟨feed, hfeed, hcount⟩ := hschedule k List.mem_cons_self
    obtain ⟨progress, hfuture, hpolled⟩ := hstart.polled k feed hfeed
    rw [List.count_cons_self] at hcount
    obtain ⟨left, rfl⟩ := hpolled.pending_of_lt (by omega)
    obtain ⟨⟨moves, hmoves, hended⟩, -⟩ :=
      poll_of_underway answers hrest hfeeds hfeedable hstart hfuture
    have hrests : ∀ i ∈ schedule, ∃ feed, feeds[i]? = some feed ∧
        (done ++ [k]).count i + schedule.count i ≤ feed.polls := by
      intro i hi
      obtain ⟨other, hother, hbound⟩ := hschedule i (List.mem_cons_of_mem _ hi)
      refine ⟨other, hother, ?_⟩
      rw [List.count_append, List.count_singleton]
      rw [List.count_cons] at hbound
      omega
    obtain ⟨rest, last, hlater⟩ := ih (atRest_afterPoll answers left m)
      (hfeedable.emitAll left.emissions) (hstart.poll hfeeds hfuture) hrests
    have hanswer : ((m.submit (.poll left)).run moves).control =
        .user (.answered (.polled left.polled)) := by rw [hended]; rfl
    refine ⟨.request (.poll left) :: (moves ++ rest), last, .poll hrest hfuture hmoves hanswer ?_⟩
    rw [hended]
    exact hlater

end Drives

/-! ### From rest to rest -/

/-- At rest, no view has to be taken apart, and no values are lent. -/
theorem calm_of_atRest (before : List (Move α β)) (hrest : (run before ({} : Machine α β)).AtRest) :
    (run before ({} : Machine α β)).world.Calm [] := by
  have hmanned : (run before ({} : Machine α β)).Manned := manned_run before
  rw [Machine.Manned, hrest.1] at hmanned
  intro j v hview
  refine ⟨Bool.eq_false_iff.mpr fun hlent ↦ ?_, fun hlive ↦ hmanned.held j v hview hlive⟩
  exact absurd (hmanned.lent j v hview hlent) List.not_mem_nil

section Start

variable {before : List (Move α β)} {j : ViewId} {v : View α β}

/-- At rest and outside ticks, the sources know all the inputs of a view that is in use. Assumes: a
run in which callbacks only emit. -/
theorem connects_of_atRest (hbefore : Along Reentrant before {})
    (hrest : (run before ({} : Machine α β)).AtRest) (hdepth : (run before {}).world.depth = 0)
    (hview : (run before {}).world.views[j]? = some v) (hlive : v.live)
    (hdisposed : v.disposed = false) : (run before {}).world.Connects j v := by
  obtain ⟨hprompt, hcalm⟩ := prompt_run j before hbefore
  obtain ⟨-, hscheduled, hcomposing, -, -⟩ :=
    settled_of_atRest before hcalm hrest hdepth hview hlive hdisposed
  have hscene := World.getElem?_scene hview
  refine ⟨⟨hlive, hdisposed, hcomposing⟩, hview, hscheduled, ?_, fun source ticket slot ↦ ?_⟩
  · refine (hprompt.complete _ hscene hlive hdisposed).resolve_right ?_
    rintro ⟨inputs, hconnecting⟩
    rw [hrest.1] at hconnecting
    contradiction
  · refine (hprompt.plugged.wired source ticket j slot).trans ?_
    rw [Scene.input?_of_view hscene]
    rfl

/-- A view without inputs shows what it composed when it was built. -/
theorem agreed_of_atRest {compose : List α → β} (answers : Nat → List α → β)
    (hbefore : Along Reentrant before {}) (hrest : (run before ({} : Machine α β)).AtRest)
    (hdepth : (run before {}).world.depth = 0) (hconnects : (run before {}).world.Connects j v)
    (hcomposer : v.composer = .direct compose) (hinputs : v.inputs = []) : v.Agreed answers := by
  obtain ⟨-, hcalm⟩ := prompt_run j before hbefore
  obtain ⟨-, -, -, -, hshown⟩ := settled_of_atRest before hcalm hrest hdepth hconnects.view
    hconnects.live hconnects.disposed
  have hslots : v.slots = [] := by
    rw [← List.length_eq_zero_iff, ← hconnects.complete, hinputs]
    rfl
  intro _ values hvalues
  obtain rfl : values = [] := by
    rw [View.cachedValues?, hslots] at hvalues
    exact (Option.some.inj hvalues).symm
  obtain ⟨-, result, hstatus, hresult, -⟩ := hshown [] (by rw [hslots]; rfl)
  rw [hstatus, hresult compose hcomposer, hcomposer]
  rfl

end Start

/-- Streams are polled in turns, at rest and outside ticks, while callbacks only record. This can be
done in a schedule exactly if it polls no feed after it has finished. However it is done, a source
has accepted a first part of the events of its feed, in order, and the feed is pending until its
last poll. Then it answers how many items it had, its source has accepted all of their events, and
the last one is current. And a view whose inputs are fed by feeds that have finished with a value
shows what its composer makes of these values, whatever the schedule. Assumes: a source of its own
for each feed, and for the views a run before in which callbacks only emit. -/
theorem lossless_of_drives (answers : Nat → List α → β) (before : List (Move α β))
    (hrest : (run before ({} : Machine α β)).AtRest) (hdepth : (run before {}).world.depth = 0)
    (feeds : List (Feed α)) (hfeeds : Separate feeds) (hfresh : ∀ feed ∈ feeds, feed.accepted = 0)
    (hthere : ∀ feed ∈ feeds, feed.source < (run before {}).world.sources.length)
    (schedule : List Nat) :
    let m : Machine α β := run before {}
    let futures := feeds.map .pending
    ((∃ moves last, Drives answers futures schedule moves m last) ↔
      ∀ k ∈ schedule, ∃ feed, feeds[k]? = some feed ∧ schedule.count k ≤ feed.polls) ∧
    ∀ moves last, Drives answers futures schedule moves m last →
      (∀ (k : Nat) feed, feeds[k]? = some feed →
        acceptedBy feed.source (m.history moves) <+: feed.events ∧
        (schedule.count k < feed.polls → ∃ rest, last[k]? = some (.pending rest)) ∧
        (schedule.count k = feed.polls →
          last[k]? = some (.finished (.count feed.items.length)) ∧
          acceptedBy feed.source (m.history moves) = feed.events ∧
          (m.run moves).world.scene.current feed.source =
            feed.events.getLastD (m.world.scene.current feed.source))) ∧
      (Along Reentrant before {} → ∀ (j : ViewId) (v : View α β) (values : List α),
        m.world.views[j]? = some v → v.live → v.disposed = false →
        (v.inputs = [] → ∃ compose, v.composer = .direct compose) →
        v.FedBy feeds schedule values →
        ∃ v', (m.run moves).world.views[j]? = some v' ∧
          v'.status = .ready (v.composer.apply answers values)) := by
  intro m futures
  have hfeedable : Feedable feeds m.world := ⟨hthere, calm_of_atRest before hrest⟩
  have hstart : Underway feeds [] [] futures := .start feeds
  have hdriven : ∀ moves last, Drives answers futures schedule moves m last →
      Underway feeds schedule (acceptedIn (m.history moves)) last ∧
        (m.run moves).world = m.world.emitAll answers (acceptedIn (m.history moves)) :=
    fun moves last hdrives ↦ hdrives.run hfeeds hfeedable hstart
  refine ⟨⟨?_, fun hschedule ↦ ?_⟩, fun moves last hdrives ↦ ?_⟩
  · rintro ⟨moves, last, hdrives⟩ k hk
    have hbound : k < feeds.length := hstart.length ▸ hdrives.lt_length k hk
    obtain ⟨progress, -, hpolled⟩ :=
      (hdriven moves last hdrives).1.polled k _ (List.getElem?_eq_getElem hbound)
    exact ⟨_, List.getElem?_eq_getElem hbound, hpolled.count_le⟩
  · refine exists_drives hrest hfeeds hfeedable hstart fun k hk ↦ ?_
    simpa using hschedule k hk
  · obtain ⟨hunderway, hworld⟩ := hdriven moves last hdrives
    constructor
    · intro k feed hfeed
      obtain ⟨progress, hlast, hpolled⟩ := hunderway.polled k feed hfeed
      refine ⟨hpolled.isPrefix, fun hcount ↦ ?_, fun hcount ↦ ?_⟩
      · obtain ⟨rest, rfl⟩ := hpolled.pending_of_lt hcount
        exact ⟨rest, hlast⟩
      · obtain ⟨hevents, rfl⟩ := hpolled.finished_of_eq hcount
        rw [hfresh feed (List.mem_of_getElem? hfeed), Nat.zero_add] at hlast
        refine ⟨hlast, hevents, ?_⟩
        have hcurrent : (m.run moves).world.scene.current feed.source =
            (acceptedBy feed.source (m.history moves)).getLastD
              (m.world.scene.current feed.source) :=
          (Delivers.start.run before).current_run feed.source
        rw [hcurrent]
        exact congrArg (List.getLastD · _) hevents
    · intro hbefore j v values hview hlive hdisposed hcomposer hfed
      have hconnects : m.world.Connects j v :=
        connects_of_atRest hbefore hrest hdepth hview hlive hdisposed
      have hagreed : v.inputs = [] → v.Agreed answers := fun hinputs ↦ by
        obtain ⟨compose, hcompose⟩ := hcomposer hinputs
        exact agreed_of_atRest answers hbefore hrest hdepth hconnects hcompose hinputs
      obtain ⟨v', hview', -, hstatus⟩ :=
        hconnects.ready_emitAll hdepth (hunderway.loaded_of_fedBy hfed) hagreed
      exact ⟨v', hworld ▸ hview', hstatus⟩

/-- A view with two inputs from one source and one from another. Callbacks hear the first source and
the view. -/
def observed : List (Move Nat Nat) :=
  Move.script 14 [.newSource "a", .newSource "b", .build [0, 1, 0] (.callback 3),
    .subscribe (.source 0) 7, .finish, .subscribe (.view 0) 8]

/-- A fetch that fails and recovers, and one that fails until it loads. -/
def fetches : List (Feed Nat) :=
  [{ source := 0, kind := .stream, endWaits := 1,
     items := [⟨0, .ok 1⟩, ⟨1, .error ⟨"a", "lost"⟩⟩, ⟨0, .ok 2⟩] },
   { source := 1, kind := .stream, items := [⟨2, .error ⟨"b", "lost"⟩⟩, ⟨0, .ok 10⟩] }]

theorem lossless_fetches :
    ∃ moves last, Drives (fun _ ↦ List.sum) (fetches.map .pending) [1, 0, 1, 0, 0, 1] moves
        (run observed {}) last ∧
      last[0]? = some (.finished (.count 3)) ∧
      acceptedBy 0 ((run observed {}).history moves) =
        [.loaded 1, .failed ⟨"a", "lost"⟩, .loaded 2] ∧
      ((run observed {}).run moves).world.scene.current 1 = .loaded 10 ∧
      ∃ v, ((run observed {}).run moves).world.views[0]? = some v ∧ v.status = .ready 14 := by
  obtain ⟨hschedules, hdriven⟩ := lossless_of_drives (fun _ ↦ List.sum) observed (by decide +kernel)
    (by decide +kernel) fetches ⟨by decide, by decide⟩ (by decide) (by decide +kernel)
    [1, 0, 1, 0, 0, 1]
  obtain ⟨moves, last, hdrives⟩ := hschedules.mpr (by decide)
  obtain ⟨hfeeds, hviews⟩ := hdriven moves last hdrives
  obtain ⟨hfinished, haccepted, -⟩ := (hfeeds 0 _ rfl).2.2 rfl
  obtain ⟨-, -, hcurrent⟩ := (hfeeds 1 _ rfl).2.2 rfl
  have hview : (run observed {}).world.views[0]? = some
      { label := "a+b+a", composer := .callback 3, inputs := [(0, 0), (1, 0), (0, 1)],
        slots := [{}, {}, {}], listeners := { next := 1, entries := [(0, 8)] },
        owned := true } := by cbv
  obtain ⟨v, hlast, hstatus⟩ := hviews (by decide +kernel) 0 _ [2, 10, 2] hview rfl rfl (by simp)
    (.cons ⟨0, _, rfl, rfl, rfl, rfl⟩ (.cons ⟨1, _, rfl, rfl, rfl, rfl⟩
      (.cons ⟨0, _, rfl, rfl, rfl, rfl⟩ .nil)))
  exact ⟨moves, last, hdrives, hfinished, haccepted, hcurrent, v, hlast, hstatus⟩

end Machine

end LiveRecord.Flow
