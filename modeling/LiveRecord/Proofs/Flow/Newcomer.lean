import Mathlib.Data.List.Forall2
import LiveRecord.Proofs.Flow.Passes

/-!
# What a listener hears that comes later

A listener that registers with a view hears at once what the view shows, which is the newest
emission, and then what the passes announce that begin from there on. A failure is shown before its
pass begins, so a listener that registers in between is told of it twice
(`Machine.heardBy_registeredLate`). Emissions are numbered in the order in which they happen
(`Ledger`). A listener hears later emissions only, each at most once and in order, if no failure was
waiting for its pass when it registered, and none when a value was composed since; and only then, if
it is still there at rest (`Machine.heardBy_of_subscribe`).
-/

set_option autoImplicit false

namespace LiveRecord.Flow

variable {α β : Type}

/-! ### Emissions by number -/

/-- The emissions of a view by number: how many there were, the failures that wait for their pass,
and what was announced, pass after pass. -/
structure Ledger where
  emitted : Nat := 0
  waiting : List Nat := []
  announced : List Nat := []
deriving DecidableEq

namespace Ledger

/-- A failure waits for its turn, a value is announced when it has been composed. -/
def enter (ledger : Ledger) : Entry β → Ledger
  | .failed _ =>
    { ledger with
      emitted := ledger.emitted + 1
      waiting := ledger.waiting ++ [ledger.emitted] }
  | .composed _ _ => { ledger with emitted := ledger.emitted + 1 }
  | .began (.failed _) =>
    { ledger with
      waiting := ledger.waiting.tail
      announced := ledger.announced ++ ledger.waiting.head?.toList }
  | .began (.ready _) =>
    { ledger with announced := ledger.announced ++ [ledger.emitted - 1] }
  | .heard _ _ => ledger

def of (past : List (Entry β)) : Ledger := past.foldl enter {}

theorem of_append (past entries : List (Entry β)) :
    of (past ++ entries) = entries.foldl enter (of past) := List.foldl_append

theorem of_append_of_onlyCalls (past : List (Entry β)) {entries : List (Entry β)}
    (hcalls : Entry.OnlyCalls entries) : of (past ++ entries) = of past := by
  induction entries generalizing past with
  | nil => rw [List.append_nil]
  | cons entry rest ih =>
    obtain ⟨ticket, event, rfl⟩ := hcalls entry List.mem_cons_self
    have hrest : of (past ++ [.heard ticket event] ++ rest) = of (past ++ [.heard ticket event]) :=
      ih _ fun other hother ↦ hcalls other (List.mem_cons_of_mem _ hother)
    rw [← List.append_cons] at hrest
    rw [hrest, of_append]
    rfl

end Ledger

/-- The numbers grow, and none is below the first. -/
def InOrder (first : Nat) (numbers : List Nat) : Prop :=
  numbers.Pairwise (· < ·) ∧ ∀ number ∈ numbers, first ≤ number

instance (first : Nat) (numbers : List Nat) : Decidable (InOrder first numbers) := by
  unfold InOrder
  infer_instance

namespace InOrder

variable {first last : Nat} {numbers shorter : List Nat}

theorem sublist (h : InOrder first numbers) (hsublist : shorter.Sublist numbers) :
    InOrder first shorter :=
  ⟨h.1.sublist hsublist, fun number hnumber ↦ h.2 number (hsublist.subset hnumber)⟩

theorem concat_iff (hfirst : first ≤ last) (hlast : ∀ number ∈ numbers, number < last) :
    InOrder first (numbers ++ [last]) ↔ InOrder first numbers := by
  refine ⟨fun h ↦ h.sublist (List.sublist_append_left _ _), fun h ↦ ⟨?_, fun number hnumber ↦ ?_⟩⟩
  · exact List.pairwise_append.mpr ⟨h.1, List.pairwise_singleton _ _, by simpa using hlast⟩
  · rcases List.mem_append.mp hnumber with hbefore | hsame
    · exact h.2 number hbefore
    · rwa [List.mem_singleton.mp hsame]

end InOrder

/-- The numbers of these emissions. -/
def Numbers (emissions : List (ViewEvent β)) : List Nat → List (ViewEvent β) → Prop :=
  List.Forall₂ fun number event ↦ emissions[number]? = some event

namespace Numbers

variable {emissions : List (ViewEvent β)} {numbers : List Nat} {events : List (ViewEvent β)}

theorem lt_length (h : Numbers emissions numbers events) :
    ∀ number ∈ numbers, number < emissions.length := by
  induction h with
  | nil => simp
  | cons hnumber _ ih =>
    rw [List.forall_mem_cons]
    exact ⟨(List.getElem?_eq_some_iff.mp hnumber).1, ih⟩

/-- Emissions that happen later leave the numbers of earlier ones alone. -/
theorem append (h : Numbers emissions numbers events) (later : List (ViewEvent β)) :
    Numbers (emissions ++ later) numbers events := by
  refine List.Forall₂.imp (fun number event hnumber ↦ ?_) h
  rw [List.getElem?_append_left (List.getElem?_eq_some_iff.mp hnumber).1]
  exact hnumber

theorem rel_append {numbers' : List Nat} {events' : List (ViewEvent β)}
    (hfirst : Numbers emissions numbers events) (hlast : Numbers emissions numbers' events') :
    Numbers emissions (numbers ++ numbers') (events ++ events') :=
  List.rel_append hfirst hlast

theorem exists_of_cons {event : ViewEvent β} (h : Numbers emissions numbers (event :: events)) :
    ∃ number rest, numbers = number :: rest ∧ Numbers emissions [number] [event] ∧
      Numbers emissions rest events := by
  obtain ⟨number, rest, hnumber, hrest, hnumbers⟩ := List.forall₂_cons_right_iff.mp h
  exact ⟨number, rest, hnumbers, .cons hnumber .nil, hrest⟩

/-- The newest emission gets the next number. -/
theorem concat (h : Numbers emissions numbers events) (event : ViewEvent β) :
    Numbers (emissions ++ [event]) (numbers ++ [emissions.length]) (events ++ [event]) :=
  (h.append [event]).rel_append (.cons List.getElem?_concat_length .nil)

end Numbers

namespace Front

variable {d d' : Front β} {past since entries : List (Entry β)}

/-- The numbers in the ledger are those of the emissions that were announced and of those that wait
for their pass. What was dropped when the view was disposed of waits forever. -/
structure Numbered (d : Front β) (past : List (Entry β)) : Prop where
  emitted : (Ledger.of past).emitted = (Entry.emissions past).length
  waiting : ∃ dropped : List SourceError,
    Numbers (Entry.emissions past) (Ledger.of past).waiting
      ((d.unannounced ++ dropped).map .failed) ∧
    (d.disposed = false → dropped = [])
  announced : Numbers (Entry.emissions past) (Ledger.of past).announced (Entry.passes past)

theorem numbered_start : Numbered ({} : Front β) [] :=
  ⟨rfl, ⟨[], .nil, fun _ ↦ rfl⟩, .nil⟩

/-- Assumes: nothing was emitted and no pass began. -/
theorem Numbered.keep (h : d.Numbered past) (hcalls : Entry.OnlyCalls entries)
    (hunannounced : d'.unannounced = d.unannounced) (hdisposed : d'.disposed = d.disposed) :
    d'.Numbered (past ++ entries) := by
  have hledger : Ledger.of (past ++ entries) = Ledger.of past :=
    Ledger.of_append_of_onlyCalls past hcalls
  have hemissions : Entry.emissions (past ++ entries) = Entry.emissions past := by
    rw [Entry.emissions_append, hcalls.emissions, List.append_nil]
  refine ⟨?_, ?_, ?_⟩
  · rw [hledger, hemissions]
    exact h.emitted
  · rw [hledger, hemissions, hunannounced, hdisposed]
    exact h.waiting
  · rw [hledger, hemissions, Entry.passes_append, hcalls.passes, List.append_nil]
    exact h.announced

theorem Numbered.step (h : d.Numbered past) (hstep : d.Step entries d') :
    d'.Numbered (past ++ entries) := by
  obtain ⟨dropped, hwaiting, hnone⟩ := h.waiting
  cases hstep with
  | idle => exact h.keep Entry.onlyCalls_nil rfl rfl
  | fail error hdisposed =>
    obtain rfl := hnone hdisposed
    rw [List.append_nil] at hwaiting
    have hconcat := hwaiting.concat (.failed error)
    refine ⟨?_, ⟨[], ?_, fun _ ↦ rfl⟩, ?_⟩
    · simp [Ledger.of_append, Ledger.enter, h.emitted]
    · simpa [Ledger.of_append, Ledger.enter, h.emitted] using hconcat
    · simpa [Ledger.of_append, Ledger.enter] using h.announced.append [.failed error]
  | @announce error errors hnext hpasses =>
    rw [hnext] at hwaiting
    obtain ⟨number, numbers, hnumbers, hnumber, hrest⟩ := hwaiting.exists_of_cons
    refine ⟨?_, ⟨dropped, ?_, hnone⟩, ?_⟩
    · simp [Ledger.of_append, Ledger.enter, h.emitted]
    · simpa [Ledger.of_append, Ledger.enter, hnumbers] using hrest
    · simpa [Ledger.of_append, Ledger.enter, hnumbers] using h.announced.rel_append hnumber
  | compose value hpasses =>
    refine ⟨?_, ⟨dropped, ?_, hnone⟩, ?_⟩
    · simp [Ledger.of_append, Ledger.enter, h.emitted]
    · simpa [Ledger.of_append, Ledger.enter] using hwaiting.append [.ready value]
    · simpa [Ledger.of_append, Ledger.enter, h.emitted] using h.announced.concat (.ready value)
  | call hpasses => exact h.keep (Entry.onlyCalls_map _ fun _ ↦ ⟨_, _, rfl⟩) rfl rfl
  | finish hpasses => exact h.keep Entry.onlyCalls_nil rfl rfl
  | register key => exact h.keep (Entry.onlyCalls_map _ fun _ ↦ ⟨_, _, rfl⟩) rfl rfl
  | unregister gone => exact h.keep Entry.onlyCalls_nil rfl rfl
  | @dispose errors hshorter =>
    obtain ⟨left, hleft⟩ := hshorter
    rw [List.append_nil]
    refine ⟨h.emitted, ⟨left ++ dropped, ?_, fun hlive ↦ by simp at hlive⟩, h.announced⟩
    rwa [← hleft, List.append_assoc] at hwaiting

/-! ### What comes later -/

/-- No value was composed while a failure was waiting for its pass. -/
def Unhurried (since : List (Entry β)) : Prop :=
  ∀ value waiting, .composed value waiting ∈ since → waiting = []

theorem unhurried_append_iff :
    Unhurried (since ++ entries) ↔ Unhurried since ∧ Unhurried entries := by
  simp only [Unhurried, List.mem_append]
  constructor
  · exact fun h ↦ ⟨fun value waiting hmem ↦ h value waiting (.inl hmem),
      fun value waiting hmem ↦ h value waiting (.inr hmem)⟩
  · rintro ⟨hfirst, hlast⟩ value waiting (hmem | hmem)
    · exact hfirst value waiting hmem
    · exact hlast value waiting hmem

theorem unhurried_of_onlyCalls (hcalls : Entry.OnlyCalls entries) : Unhurried entries := by
  intro value waiting hmem
  obtain ⟨ticket, event, hentry⟩ := hcalls _ hmem
  contradiction

/-- A failure that waits for its pass was emitted before. -/
theorem Numbered.exists_waiting (h : d.Numbered past) (hwaits : d.unannounced ≠ []) :
    ∃ number numbers,
      (Ledger.of past).waiting.take d.unannounced.length = number :: numbers ∧
        number < (Ledger.of past).emitted := by
  obtain ⟨dropped, hwaiting, -⟩ := h.waiting
  have hlt := hwaiting.lt_length
  obtain ⟨error, errors, hnext⟩ := List.exists_cons_of_ne_nil hwaits
  rw [hnext] at hwaiting
  obtain ⟨number, numbers, hnumbers, -, -⟩ := hwaiting.exists_of_cons
  refine ⟨number, numbers.take errors.length, ?_, ?_⟩
  · rw [hnumbers, hnext]
    rfl
  · rw [h.emitted]
    exact hlt number (hnumbers ▸ List.mem_cons_self)

/-- The numbers of what was announced after a moment and of what is to be announced next. -/
def line (origin : Ledger) (d : Front β) (past : List (Entry β)) : List Nat :=
  (Ledger.of past).announced.drop origin.announced.length ++
    (Ledger.of past).waiting.take d.unannounced.length

theorem Numbered.line_lt (h : d.Numbered past) (origin : Ledger) :
    ∀ number ∈ line origin d past, number < (Ledger.of past).emitted := by
  obtain ⟨dropped, hwaiting, -⟩ := h.waiting
  intro number hnumber
  rw [h.emitted]
  rcases List.mem_append.mp hnumber with hannounced | hnext
  · exact h.announced.lt_length number (List.mem_of_mem_drop hannounced)
  · exact hwaiting.lt_length number (List.mem_of_mem_take hnext)

/-- What is announced after a moment comes later and in order, if nothing waited at that moment and
nothing when a value was composed since. A listener that stays sees to the converse. -/
structure Later (ticket : Nat) (origin : Ledger) (calm : Prop) (d : Front β)
    (past since : List (Entry β)) : Prop where
  grown : origin.emitted ≤ (Ledger.of past).emitted
  announced : origin.announced.length ≤ (Ledger.of past).announced.length
  inOrder : calm → Unhurried since → InOrder origin.emitted (line origin d past)
  calm : ticket ∈ d.listeners.tickets → InOrder origin.emitted (line origin d past) →
    calm ∧ Unhurried since

variable {ticket : Nat} {origin : Ledger} {calm : Prop}

/-- The line stays as it is. -/
theorem Later.of_line_eq (h : d.Later ticket origin calm past since)
    (hemitted : (Ledger.of past).emitted = (Ledger.of (past ++ entries)).emitted)
    (hannounced : (Ledger.of past).announced.length ≤
      (Ledger.of (past ++ entries)).announced.length)
    (hline : line origin d' (past ++ entries) = line origin d past) (hentries : Unhurried entries)
    (hstays : ticket ∈ d'.listeners.tickets → ticket ∈ d.listeners.tickets) :
    d'.Later ticket origin calm (past ++ entries) (since ++ entries) := by
  refine ⟨h.grown.trans_eq hemitted, h.announced.trans hannounced, fun hcalm hsince ↦ ?_,
    fun hthere hinOrder ↦ ?_⟩
  · rw [hline]
    exact h.inOrder hcalm (unhurried_append_iff.mp hsince).1
  · rw [hline] at hinOrder
    obtain ⟨hcalm, hsince⟩ := h.calm (hstays hthere) hinOrder
    exact ⟨hcalm, unhurried_append_iff.mpr ⟨hsince, hentries⟩⟩

/-- Assumes: nothing was emitted and no pass began. -/
theorem Later.keep (h : d.Later ticket origin calm past since) (hcalls : Entry.OnlyCalls entries)
    (hunannounced : d'.unannounced = d.unannounced)
    (hstays : ticket ∈ d'.listeners.tickets → ticket ∈ d.listeners.tickets) :
    d'.Later ticket origin calm (past ++ entries) (since ++ entries) := by
  have hledger : Ledger.of (past ++ entries) = Ledger.of past :=
    Ledger.of_append_of_onlyCalls past hcalls
  refine h.of_line_eq ?_ ?_ ?_ (unhurried_of_onlyCalls hcalls) hstays
  · rw [hledger]
  · rw [hledger]
  · rw [line, hledger, hunannounced, line]

/-- The newest emission goes to the end of the line. -/
theorem Later.concat (h : d.Later ticket origin calm past since) (hnumbered : d.Numbered past)
    (hemitted : (Ledger.of (past ++ entries)).emitted = (Ledger.of past).emitted + 1)
    (hannounced : (Ledger.of past).announced.length ≤
      (Ledger.of (past ++ entries)).announced.length)
    (hline : line origin d' (past ++ entries) = line origin d past ++ [(Ledger.of past).emitted])
    (hentries : Unhurried entries)
    (hstays : ticket ∈ d'.listeners.tickets → ticket ∈ d.listeners.tickets) :
    d'.Later ticket origin calm (past ++ entries) (since ++ entries) := by
  have hiff : InOrder origin.emitted (line origin d' (past ++ entries)) ↔
      InOrder origin.emitted (line origin d past) := by
    rw [hline]
    exact InOrder.concat_iff h.grown (hnumbered.line_lt origin)
  refine ⟨?_, h.announced.trans hannounced, fun hcalm hsince ↦ ?_, fun hthere hinOrder ↦ ?_⟩
  · rw [hemitted]
    exact Nat.le_succ_of_le h.grown
  · exact hiff.mpr (h.inOrder hcalm (unhurried_append_iff.mp hsince).1)
  · obtain ⟨hcalm, hsince⟩ := h.calm (hstays hthere) (hiff.mp hinOrder)
    exact ⟨hcalm, unhurried_append_iff.mpr ⟨hsince, hentries⟩⟩

/-- A value that is announced before a failure that waits is out of order. -/
theorem Later.overtake (h : d.Later ticket origin calm past since) (hnumbered : d.Numbered past)
    {value : β} (hunannounced : d'.unannounced = d.unannounced) (hwaits : d.unannounced ≠ []) :
    d'.Later ticket origin calm
      (past ++ [.composed value d.unannounced, .began (.ready value)])
      (since ++ [.composed value d.unannounced, .began (.ready value)]) := by
  obtain ⟨number, numbers, hnumbers, hbefore⟩ := hnumbered.exists_waiting hwaits
  have hline : line origin d' (past ++ [.composed value d.unannounced, .began (.ready value)]) =
      (Ledger.of past).announced.drop origin.announced.length ++
        (Ledger.of past).emitted :: number :: numbers := by
    simp [line, Ledger.of_append, Ledger.enter, hunannounced, hnumbers,
      List.drop_append_of_le_length h.announced]
  refine ⟨?_, ?_, fun _ hsince ↦ ?_, fun _ hinOrder ↦ ?_⟩
  · simpa [Ledger.of_append, Ledger.enter] using Nat.le_succ_of_le h.grown
  · simpa [Ledger.of_append, Ledger.enter] using Nat.le_succ_of_le h.announced
  · exact absurd ((unhurried_append_iff.mp hsince).2 value d.unannounced List.mem_cons_self) hwaits
  · have hpairwise := (List.pairwise_append.mp (hline ▸ hinOrder.1)).2.1
    exact absurd ((List.pairwise_cons.mp hpairwise).1 number List.mem_cons_self) hbefore.not_gt

theorem Later.step (h : d.Later ticket origin calm past since) (hnumbered : d.Numbered past)
    (hstep : d.Step entries d')
    (hstays : ticket ∈ d'.listeners.tickets → ticket ∈ d.listeners.tickets) :
    d'.Later ticket origin calm (past ++ entries) (since ++ entries) := by
  obtain ⟨dropped, hwaiting, hnone⟩ := hnumbered.waiting
  cases hstep with
  | idle => exact h.keep Entry.onlyCalls_nil rfl hstays
  | fail error hdisposed =>
    obtain rfl := hnone hdisposed
    have hall : (Ledger.of past).waiting.length = d.unannounced.length := by
      simpa using List.Forall₂.length_eq hwaiting
    refine h.concat hnumbered (by simp [Ledger.of_append, Ledger.enter])
      (by simp [Ledger.of_append, Ledger.enter]) ?_ (by simp [Unhurried]) hstays
    simp [line, Ledger.of_append, Ledger.enter, ← hall, List.take_of_length_le]
  | @announce error errors hnext hpasses =>
    rw [hnext] at hwaiting
    obtain ⟨number, numbers, hnumbers, -, -⟩ := hwaiting.exists_of_cons
    refine h.of_line_eq (by simp [Ledger.of_append, Ledger.enter])
      (by simp [Ledger.of_append, Ledger.enter]) ?_ (by simp [Unhurried]) hstays
    simp [line, Ledger.of_append, Ledger.enter, hnumbers, hnext,
      List.drop_append_of_le_length h.announced]
  | compose value hpasses =>
    by_cases hquiet : d.unannounced = []
    · refine h.concat hnumbered (by simp [Ledger.of_append, Ledger.enter])
        (by simp [Ledger.of_append, Ledger.enter]) ?_ (by simp [Unhurried, hquiet]) hstays
      simp [line, Ledger.of_append, Ledger.enter, hquiet,
        List.drop_append_of_le_length h.announced]
    · exact h.overtake hnumbered rfl hquiet
  | call hpasses => exact h.keep (Entry.onlyCalls_map _ fun _ ↦ ⟨_, _, rfl⟩) rfl hstays
  | finish hpasses => exact h.keep Entry.onlyCalls_nil rfl hstays
  | register key => exact h.keep (Entry.onlyCalls_map _ fun _ ↦ ⟨_, _, rfl⟩) rfl hstays
  | unregister gone => exact h.keep Entry.onlyCalls_nil rfl hstays
  | @dispose errors hshorter =>
    rw [List.append_nil, List.append_nil]
    refine ⟨h.grown, h.announced, fun hcalm hsince ↦ ?_, fun hthere ↦ ?_⟩
    · refine (h.inOrder hcalm hsince).sublist (List.Sublist.append_left ?_ _)
      exact (List.take_prefix_take_left hshorter.length_le).sublist
    · simp [Registry.clear, Registry.tickets] at hthere

/-- The line begins with what waits. Assumes: listeners may have been called meanwhile. -/
theorem Numbered.later (h : d.Numbered past) (hcalls : Entry.OnlyCalls entries)
    (hunannounced : d'.unannounced = d.unannounced) (ticket : Nat) :
    d'.Later ticket (Ledger.of past) (d.unannounced = []) (past ++ entries) entries := by
  have hledger : Ledger.of (past ++ entries) = Ledger.of past :=
    Ledger.of_append_of_onlyCalls past hcalls
  have hline : line (Ledger.of past) d' (past ++ entries) =
      (Ledger.of past).waiting.take d.unannounced.length := by
    rw [line, hledger, hunannounced, List.drop_length, List.nil_append]
  refine ⟨?_, ?_, fun hcalm _ ↦ ?_, fun _ hinOrder ↦ ⟨?_, unhurried_of_onlyCalls hcalls⟩⟩
  · rw [hledger]
  · rw [hledger]
  · rw [hline, hcalm]
    exact ⟨.nil, by simp⟩
  · -- a failure that waits is older than the moment
    by_contra hwaits
    obtain ⟨number, numbers, hnumbers, hbefore⟩ := h.exists_waiting hwaits
    have hafter : (Ledger.of past).emitted ≤ number := by
      refine hinOrder.2 number ?_
      rw [hline, hnumbers]
      exact List.mem_cons_self
    exact absurd hbefore hafter.not_gt

/-- Assumes: a ticket that was not given out yet. -/
theorem Sorted.due_of_not_given (h : d.Sorted) (hfresh : d.listeners.next ≤ ticket) :
    d.due ticket = [] := by
  refine List.filterMap_eq_nil_iff.mpr fun pass hpass ↦ if_neg fun hticket ↦ ?_
  exact absurd (h.given pass hpass ticket hticket) hfresh.not_gt

/-- What holds of a listener from when it registers. -/
structure Attends (ticket : Nat) (greeting : List (ViewEvent β)) (before : List (Entry β))
    (calm : Prop) (d : Front β) (since : List (Entry β)) : Prop where
  numbered : d.Numbered (before ++ since)
  sorted : d.Sorted
  greeted : greeting <+: Entry.heardBy ticket since
  follows : d.Follows ticket greeting since
  later : d.Later ticket (Ledger.of before) calm (before ++ since) since

theorem Attends.register (hnumbered : d.Numbered past) (hsorted : d.Sorted) (key : Nat) :
    Attends d.listeners.next d.status.event?.toList past (d.unannounced = [])
      { d with listeners := d.listeners.register key }
      (d.status.event?.toList.map (.heard d.listeners.next)) := by
  have hcalls : Entry.OnlyCalls (d.status.event?.toList.map (.heard d.listeners.next)) :=
    Entry.onlyCalls_map _ fun _ ↦ ⟨_, _, rfl⟩
  have hgreeting : Entry.heardBy d.listeners.next
      (d.status.event?.toList.map (.heard d.listeners.next)) = d.status.event?.toList := by
    rw [Entry.heardBy_greeting, if_pos rfl]
  have hdue : due d.listeners.next { d with listeners := d.listeners.register key } = [] :=
    hsorted.due_of_not_given (Nat.le_refl _)
  refine ⟨hnumbered.step (.register key), hsorted.step (.register key), ?_,
    ⟨Nat.lt_succ_self _, fun _ ↦ ?_, ?_⟩, ?_⟩
  · exact ⟨[], by rw [List.append_nil, hgreeting]⟩
  · rw [hgreeting, hdue, hcalls.passes]
  · exact ⟨[], by rw [List.append_nil, hgreeting, hcalls.passes, List.append_nil]⟩
  · apply hnumbered.later hcalls
    rfl

theorem Attends.step {greeting : List (ViewEvent β)}
    (h : Attends ticket greeting past calm d since) (hstep : d.Step entries d') :
    Attends ticket greeting past calm d' (since ++ entries) := by
  have hnumbered := h.numbered.step hstep
  have hlater := h.later.step h.numbered hstep fun hthere ↦
    (hstep.tells h.sorted h.follows.issued hthere).1
  rw [List.append_assoc] at hnumbered hlater
  refine ⟨hnumbered, h.sorted.step hstep, ?_, h.follows.step h.sorted hstep, hlater⟩
  rw [Entry.heardBy_append]
  exact h.greeted.trans (List.prefix_append _ _)

/-- The numbers of what a listener heard after its greeting. -/
theorem Attends.told {greeting : List (ViewEvent β)} (h : Attends ticket greeting past calm d since)
    (hpast : (Ledger.of past).announced.length = (Entry.passes past).length) :
    let announced := (Ledger.of (past ++ since)).announced.drop (Ledger.of past).announced.length
    ∃ told later, Entry.heardBy ticket since = greeting ++ later ∧ told <+: announced ∧
      Numbers (Entry.emissions (past ++ since)) told later ∧
      (calm → Unhurried since → InOrder (Ledger.of past).emitted told) ∧
      (ticket ∈ d.listeners.tickets → d.passes = [] → d.unannounced = [] →
        InOrder (Ledger.of past).emitted told → calm ∧ Unhurried since) := by
  intro announced
  obtain ⟨later, hlater⟩ := h.greeted
  have hheard : Entry.heardBy ticket since = greeting ++ later := hlater.symm
  have hnumbers : Numbers (Entry.emissions (past ++ since)) announced (Entry.passes since) := by
    have hall := List.forall₂_drop (Ledger.of past).announced.length h.numbered.announced
    rwa [Entry.passes_append, hpast, List.drop_left, ← hpast] at hall
  have hpart : later <+: Entry.passes since := by
    have hfollows := h.follows.part
    rwa [hheard, List.prefix_append_right_inj] at hfollows
  have hshorter : announced.take later.length <+: announced := List.take_prefix _ _
  refine ⟨announced.take later.length, later, hheard, hshorter, ?_, fun hcalm hsince ↦ ?_,
    fun hthere hpasses hnone hinOrder ↦ h.later.calm hthere ?_⟩
  · have htold := List.forall₂_take later.length hnumbers
    rwa [← List.prefix_iff_eq_take.mp hpart] at htold
  · exact (h.later.inOrder hcalm hsince).sublist
      (hshorter.sublist.trans (List.sublist_append_left _ _))
  · have hall : later = Entry.passes since := by
      have htold := h.follows.told hthere
      rwa [due_nil hpasses, List.append_nil, hheard, List.append_cancel_left_eq] at htold
    have hlength : later.length = announced.length := by
      rw [hall]
      exact (List.Forall₂.length_eq hnumbers).symm
    rw [hlength, List.take_length] at hinOrder
    rwa [line, hnone, List.length_nil, List.take_zero, List.append_nil]

end Front

namespace Machine

variable (view : ViewId) (moves : List (Move α β)) (m : Machine α β)

/-- The failures of a view for which no pass has begun yet. -/
def unannounced : List SourceError := (m.situation view).elim [] (·.unannounced)

/-- The numbers of the emissions that a view has announced, pass after pass. -/
def numbers : List Nat := (Ledger.of (chronicle view moves {})).announced

theorem unhurried_chronicle : Front.Unhurried (m.chronicle view moves) ↔
    ∀ composition ∈ ViewNotice.compositions (historyOf view (m.history moves)),
      composition.2 = [] := by
  let composition? : Entry β → Option (β × List SourceError)
    | .composed value waiting => some (value, waiting)
    | _ => none
  have hsame : (m.chronicle view moves).filterMap composition? =
      ViewNotice.compositions (historyOf view (m.history moves)) := by
    refine filterMap_chronicle (fun notice ↦ ?_) (fun _ ↦ rfl) view moves m
    cases notice with
    | delivered slot event => cases event <;> rfl
    | _ => rfl
  rw [← hsame]
  constructor
  · intro h composition hmem
    obtain ⟨entry, hentry, hcomposition⟩ := List.mem_filterMap.mp hmem
    cases entry with
    | composed value waiting =>
      obtain rfl := Option.some.inj hcomposition
      exact h value waiting hentry
    | _ => simp [composition?] at hcomposition
  · intro h value waiting hmem
    exact h (value, waiting) (List.mem_filterMap.mpr ⟨_, hmem, rfl⟩)

theorem numbered_of_run {moves : List (Move α β)} (hcalm : Along RaiseFree moves {})
    {view : ViewId} {s : Situation α β} (hs : (run moves {}).situation view = some s) :
    s.front.Numbered (chronicle view moves {}) :=
  front_invariant Front.numbered_start (fun _ _ _ _ h hstep ↦ h.step hstep) hcalm hs

/-- What holds of a listener that has registered, at the end of a run. -/
theorem attends_of_subscribe {before after : List (Move α β)} {view : ViewId} {key : Nat}
    (hcalm : Along RaiseFree (before ++ .request (.subscribe (.view view) key) :: after) {})
    (huser : (run before {}).hasUser) {s₀ : Situation α β}
    (hs₀ : (run before {}).situation view = some s₀) (hlive : s₀.view.live) :
    ∃ s, (run (before ++ .request (.subscribe (.view view) key) :: after) {}).situation view = some s ∧
      Front.Attends s₀.view.listeners.next s₀.view.status.event?.toList (chronicle view before {})
        (s₀.unannounced = []) s.front
        (chronicle view (.request (.subscribe (.view view) key) :: after) (run before {})) := by
  obtain ⟨hbefore, hsubscribe, hafter⟩ := along_append.mp hcalm
  have hsound : (run before {}).Sound := Sound.start.run hbefore
  -- the listener registers
  have hregistered : ((run before {}).move (.request (.subscribe (.view view) key))).situation view =
      some (s₀.modify fun v ↦ { v with listeners := v.listeners.register key }) := by
    rw [Machine.move, submit_eq_serve huser]
    exact situation_subscribe key hs₀ hlive
  have hentries : (run before {}).entries view (.request (.subscribe (.view view) key)) =
      s₀.view.status.event?.toList.map (.heard s₀.view.listeners.next) := by
    have hbegun : (run before {}).begun view (.request (.subscribe (.view view) key)) = [] := by
      rw [begun, passes_of_situation hs₀, passes_of_situation hregistered]
      exact Pass.begun_self _
    rw [entries, hbegun, notices_request huser, historyOf_subscribe key hs₀ hlive]
    cases s₀.view.status <;> rfl
  have hattends : Front.Attends s₀.view.listeners.next s₀.view.status.event?.toList
      (chronicle view before {}) (s₀.unannounced = [])
      (s₀.modify fun v ↦ { v with listeners := v.listeners.register key }).front
      ((run before {}).entries view (.request (.subscribe (.view view) key))) := by
    rw [hentries]
    exact .register (numbered_of_run hbefore hs₀) (sorted_of_run hbefore hs₀) key
  -- the rest of the run
  obtain ⟨s, hs, hend⟩ := front_run (fun _ _ _ _ h hstep ↦ Front.Attends.step h hstep)
    (hsound.move hsubscribe) hafter hregistered ((regular_of_run hbefore hs₀).step (.register key))
    hattends
  refine ⟨s, ?_, hend⟩
  rw [run_append]
  exact hs

/-- What a listener hears that registers at any moment: first what the view shows, which is the
newest emission, and then emissions that are announced from there on, by number. The numbers grow,
and all of them are later than what it was told first, if no failure was waiting for its pass when
the listener registered and none when a value was composed since. For a listener that is still there
at rest, this is the only way. Assumes: a run in which nothing raises, and a view that was live. -/
theorem heardBy_of_subscribe (before after : List (Move α β)) (view : ViewId) (key : Nat)
    (hcalm : Along RaiseFree (before ++ .request (.subscribe (.view view) key) :: after) {})
    (huser : (run before {}).hasUser) {v₀ : View α β}
    (hview₀ : (run before {}).world.views[view]? = some v₀) (hlive : v₀.live) :
    let moves := before ++ .request (.subscribe (.view view) key) :: after
    let earlier := ViewNotice.emissions (historyOf view (history before {}))
    let emitted := ViewNotice.emissions (historyOf view (history moves {}))
    let since := historyOf view
      (history (.request (.subscribe (.view view) key) :: after) (run before {}))
    let calm := (run before {}).unannounced view = [] ∧
      ∀ composition ∈ ViewNotice.compositions since, composition.2 = []
    v₀.status.event? = earlier.getLast? ∧
    ∃ told later,
      ViewNotice.heardBy v₀.listeners.next since = v₀.status.event?.toList ++ later ∧
      told <+: (numbers view moves).drop (numbers view before).length ∧
      Numbers emitted told later ∧
      (calm → InOrder earlier.length told) ∧
      ((run moves {}).AtRest → ∀ v, (run moves {}).world.views[view]? = some v →
        v₀.listeners.next ∈ v.listeners.tickets → InOrder earlier.length told → calm) := by
  intro moves earlier emitted since calm
  have hbefore : Along RaiseFree before {} := (along_append.mp hcalm).1
  have hs₀ := situation_of_view hview₀
  have hnumbered := numbered_of_run hbefore hs₀
  obtain ⟨s, hs, hattends⟩ := attends_of_subscribe hcalm huser hs₀ hlive
  have hearlier : Entry.emissions (chronicle view before {}) = earlier :=
    emissions_chronicle view before {}
  have hall : chronicle view before {} ++
      (run before {}).chronicle view (.request (.subscribe (.view view) key) :: after) =
        chronicle view moves {} := (chronicle_append view before _ {}).symm
  have hcalm' : calm ↔ ((run before {}).unannounced view = [] ∧ Front.Unhurried
      ((run before {}).chronicle view (.request (.subscribe (.view view) key) :: after))) := by
    rw [unhurried_chronicle]
  have hunannounced : (run before {}).unannounced view = Situation.unannounced
      { view := v₀, tasks := (run before {}).tasks view, jobs := (run before {}).jobs view } := by
    rw [unannounced, hs₀]
    rfl
  obtain ⟨told, later, hheard, hshorter, htold, hinOrder, hconverse⟩ :=
    hattends.told (List.Forall₂.length_eq hnumbered.announced)
  rw [hall, emissions_chronicle] at htold
  rw [hall] at hshorter
  rw [hnumbered.emitted, hearlier] at hinOrder hconverse
  refine ⟨?_, told, later, ?_, hshorter, htold, fun h ↦ ?_, fun hrest v hview hthere h ↦ ?_⟩
  · rw [← hearlier]
    exact (accounts_of_run hbefore hs₀).status
  · rw [← hheard, heardBy_chronicle]
  · obtain ⟨hnone, hunhurried⟩ := hcalm'.mp h
    exact hinOrder (hunannounced ▸ hnone) hunhurried
  · rw [hcalm', hunannounced]
    obtain rfl := Option.some.inj (hs.symm.trans (hrest.situation hview))
    exact hconverse hthere rfl ((regular_of_run hcalm hs).unannounced_of_idle rfl) h

/-- The listener of a view over two sources is called with a failure. -/
def calledOnce : List (Move Nat (List Nat)) :=
  unheard ++ Move.script 14 [.subscribe (.view 0) 7, .emit 1 (.loaded 10),
    .emit 0 (.failed ⟨"a", "early"⟩)]

/-- The callbacks end, and the input recovers. -/
def recoveringLater : List (Move Nat (List Nat)) :=
  List.replicate 14 .advance ++
    Move.script 14 [.finish, .finish, .emit 0 (.loaded 2), .finish, .finish]

set_option maxRecDepth 4000 in
theorem heardBy_registeredInPass :
    Along RaiseFree (calledOnce ++ .request (.subscribe (.view 0) 8) :: recoveringLater) {} ∧
    (run calledOnce {}).hasUser ∧ (run calledOnce {}).passes 0 = [⟨.failed ⟨"a", "early"⟩, []⟩] ∧
    ∃ told later,
      ViewNotice.heardBy 1 (historyOf 0
        (history (.request (.subscribe (.view 0) 8) :: recoveringLater) (run calledOnce {}))) =
          .failed ⟨"a", "early"⟩ :: later ∧
      Numbers [.failed ⟨"a", "early"⟩, .ready [2, 10]] told later ∧ InOrder 1 told := by
  have hcalm : Along RaiseFree
      (calledOnce ++ .request (.subscribe (.view 0) 8) :: recoveringLater) {} := by decide +kernel
  have huser : (run calledOnce {}).hasUser := by decide +kernel
  have hview₀ : (run calledOnce {}).world.views[0]? = some
      { label := "a+b", composer := .direct id, inputs := [(0, 0), (1, 0)],
        slots := [{ status := .failed }, { status := .loaded, cached := some 10 }],
        status := .failed ⟨"a", "early"⟩, listeners := { next := 1, entries := [(0, 7)] },
        composing := true, owned := true } := by cbv
  obtain ⟨-, told, later, hheard, -, hnumbers, hinOrder, -⟩ :=
    heardBy_of_subscribe calledOnce recoveringLater 0 8 hcalm huser hview₀ rfl
  have hemitted : ViewNotice.emissions (historyOf 0 (history
      (calledOnce ++ .request (.subscribe (.view 0) 8) :: recoveringLater) {})) =
        [.failed ⟨"a", "early"⟩, .ready [2, 10]] := by decide +kernel
  have hearlier : ViewNotice.emissions (historyOf 0 (history calledOnce {})) =
      [.failed ⟨"a", "early"⟩] := by decide +kernel
  rw [hemitted] at hnumbers
  rw [hearlier] at hinOrder
  refine ⟨hcalm, huser, by decide +kernel, told, later, hheard, hnumbers, hinOrder ⟨?_, ?_⟩⟩
  · decide +kernel
  · decide +kernel

/-- While the listener is called with a failure, another failure comes, and then someone else
registers. -/
def registeredLate : List (Move Nat (List Nat)) :=
  calledOnce ++ Move.script 14 [.emit 1 (.failed ⟨"b", "late"⟩), .subscribe (.view 0) 8, .finish,
    .finish, .finish, .finish]

set_option maxRecDepth 4000 in
theorem heardBy_registeredLate :
    Along RaiseFree registeredLate {} ∧ (run registeredLate {}).AtRest ∧
    ViewNotice.emissions (historyOf 0 (history registeredLate {})) =
      [.failed ⟨"a", "early"⟩, .failed ⟨"b", "late"⟩] ∧
    ViewNotice.heardBy 1 (historyOf 0 (history registeredLate {})) =
      [.failed ⟨"b", "late"⟩, .failed ⟨"b", "late"⟩] := by
  decide +kernel

end Machine

end LiveRecord.Flow
