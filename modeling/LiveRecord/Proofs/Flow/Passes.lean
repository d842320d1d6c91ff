import LiveRecord.Proofs.Flow.Disposal
import LiveRecord.Proofs.Flow.Front
import LiveRecord.Proofs.Flow.Tickets

/-!
# Passes over the listeners of a view

A view announces one emission after the other. A pass begins when no other pass over the same
listeners is under way; each failure gets one pass, in the order in which the failures came, unless
the view is disposed of first; each value gets one pass at once. A pass calls each listener that was
there when it began and has not gone since, so listeners that stay hear the same
(`Machine.announced_of_run`).

The accounts are kept for the front of a view, step by step: emissions against passes
(`Front.Accounts.step`), and what one listener heard against passes (`Front.Follows.step`).
-/

set_option autoImplicit false

namespace LiveRecord.Flow

variable {α β : Type}

/-- The emissions of a view: the failures that its inputs were given and the values that were
composed. -/
def ViewNotice.emissions (history : List (ViewNotice α β)) : List (ViewEvent β) :=
  history.filterMap fun
    | delivered _ (.failed error) => some (.failed error)
    | composed value _ => some (.ready value)
    | _ => none

namespace Entry

def emissions (past : List (Entry β)) : List (ViewEvent β) := past.filterMap (·.emission?)

def passes (past : List (Entry β)) : List (ViewEvent β) := past.filterMap (·.pass?)

def heardBy (ticket : Nat) (past : List (Entry β)) : List (ViewEvent β) :=
  past.filterMap (·.heardBy? ticket)

section Append

variable (first last : List (Entry β))

@[simp] theorem emissions_append : emissions (first ++ last) = emissions first ++ emissions last :=
  List.filterMap_append

@[simp] theorem passes_append : passes (first ++ last) = passes first ++ passes last :=
  List.filterMap_append

@[simp] theorem heardBy_append (ticket : Nat) :
    heardBy ticket (first ++ last) = heardBy ticket first ++ heardBy ticket last :=
  List.filterMap_append

end Append

section Step

variable (error : SourceError) (value : β) (waiting : List SourceError) (event : ViewEvent β)
  (ticket : Nat)

@[simp] theorem passes_nil : passes ([] : List (Entry β)) = [] := rfl

@[simp] theorem heardBy_nil : heardBy ticket ([] : List (Entry β)) = [] := rfl

@[simp] theorem emissions_failed : emissions [(failed error : Entry β)] = [.failed error] := rfl

@[simp] theorem passes_failed : passes [(failed error : Entry β)] = [] := rfl

@[simp] theorem heardBy_failed : heardBy ticket [(failed error : Entry β)] = [] := rfl

@[simp] theorem emissions_began : emissions [began event] = [] := rfl

@[simp] theorem passes_began : passes [began event] = [event] := rfl

@[simp] theorem emissions_composed :
    emissions [composed value waiting, began event] = [.ready value] := rfl

@[simp] theorem passes_composed : passes [composed value waiting, began event] = [event] := rfl

end Step

/-- Listeners are called, and nothing else happens. -/
def OnlyCalls (entries : List (Entry β)) : Prop :=
  ∀ entry ∈ entries, ∃ ticket event, entry = heard ticket event

theorem onlyCalls_nil : OnlyCalls ([] : List (Entry β)) := fun _ hentry ↦
  absurd hentry List.not_mem_nil

/-- Assumes: a listener is called if there is one. -/
theorem onlyCalls_map {γ : Type} {f : γ → Entry β} (found : Option γ)
    (hf : ∀ c, ∃ ticket event, f c = heard ticket event) : OnlyCalls (found.toList.map f) := by
  intro entry hentry
  obtain ⟨c, -, rfl⟩ := List.mem_map.mp hentry
  exact hf c

section OnlyCalls

variable {entries : List (Entry β)}

theorem OnlyCalls.emissions (h : OnlyCalls entries) : Entry.emissions entries = [] := by
  refine List.filterMap_eq_nil_iff.mpr fun entry hentry ↦ ?_
  obtain ⟨ticket, event, rfl⟩ := h entry hentry
  rfl

theorem OnlyCalls.passes (h : OnlyCalls entries) : Entry.passes entries = [] := by
  refine List.filterMap_eq_nil_iff.mpr fun entry hentry ↦ ?_
  obtain ⟨ticket, event, rfl⟩ := h entry hentry
  rfl

end OnlyCalls

/-- What is heard of a pass that has come to a ticket. -/
theorem heardBy_call {γ : Type} (ticket other : Nat) (event : ViewEvent β) (found : Option γ) :
    heardBy other (found.toList.map fun _ ↦ heard ticket event) =
      if ticket = other then found.toList.map fun _ ↦ event else [] := by
  by_cases hother : ticket = other
  · cases found <;> simp [heardBy, heardBy?, hother]
  · cases found <;> simp [heardBy, heardBy?, hother]

/-- What is heard when a listener registers. -/
theorem heardBy_greeting (ticket next : Nat) (status : ViewStatus β) :
    heardBy ticket (status.event?.toList.map (heard next)) =
      if next = ticket then status.event?.toList else [] := by
  by_cases hnext : next = ticket
  · cases status <;> simp [ViewStatus.event?, heardBy, heardBy?, hnext]
  · cases status <;> simp [ViewStatus.event?, heardBy, heardBy?, hnext]

end Entry

namespace Machine

variable (view : ViewId) (moves : List (Move α β)) (m : Machine α β)

/-- The events of the passes over the listeners of a view that begin in the course of a run. -/
def announced : List (ViewEvent β) := Entry.passes (m.chronicle view moves)

theorem emissions_chronicle : Entry.emissions (m.chronicle view moves) =
    ViewNotice.emissions (historyOf view (m.history moves)) := by
  refine filterMap_chronicle (fun notice ↦ ?_) (fun _ ↦ rfl) view moves m
  cases notice with
  | delivered slot event => cases event <;> rfl
  | _ => rfl

theorem heardBy_chronicle (ticket : Nat) : Entry.heardBy ticket (m.chronicle view moves) =
    ViewNotice.heardBy ticket (historyOf view (m.history moves)) := by
  refine filterMap_chronicle (fun notice ↦ ?_) (fun _ ↦ rfl) view moves m
  cases notice with
  | delivered slot event => cases event <;> rfl
  | _ => rfl

end Machine

namespace Front

variable {d d' : Front β} {past entries : List (Entry β)} {ticket : Nat}
  {first : List (ViewEvent β)}

/-! ### Emissions against passes -/

/-- What a view shows and has announced, by its emissions: every value had a pass, and of the
failures those that are not waiting for one or were dropped when the view was disposed of. -/
structure Accounts (d : Front β) (past : List (Entry β)) : Prop where
  failures : ∃ dropped,
    (Entry.emissions past).filterMap (·.error?) =
      (Entry.passes past).filterMap (·.error?) ++ d.unannounced ++ dropped ∧
    (d.disposed = false → dropped = [])
  values : (Entry.passes past).filterMap (·.value?) = (Entry.emissions past).filterMap (·.value?)
  emissions : d.emissions = ((Entry.emissions past).filterMap (·.value?)).length
  status : d.status.event? = (Entry.emissions past).getLast?

theorem accounts_start : Accounts ({} : Front β) [] :=
  ⟨⟨[], rfl, fun _ ↦ rfl⟩, rfl, rfl, rfl⟩

/-- Assumes: nothing was emitted, no pass began, and nothing was dropped. -/
theorem Accounts.keep (h : d.Accounts past) (hcalls : Entry.OnlyCalls entries)
    (hstatus : d'.status = d.status) (hcount : d'.emissions = d.emissions)
    (hdisposed : d'.disposed = d.disposed) (hunannounced : d'.unannounced = d.unannounced) :
    d'.Accounts (past ++ entries) := by
  have hemissions : Entry.emissions (past ++ entries) = Entry.emissions past := by
    rw [Entry.emissions_append, hcalls.emissions, List.append_nil]
  have hpasses : Entry.passes (past ++ entries) = Entry.passes past := by
    rw [Entry.passes_append, hcalls.passes, List.append_nil]
  refine ⟨?_, ?_, ?_, ?_⟩
  · rw [hemissions, hpasses, hunannounced, hdisposed]
    exact h.failures
  · rw [hemissions, hpasses]
    exact h.values
  · rw [hemissions, hcount]
    exact h.emissions
  · rw [hemissions, hstatus]
    exact h.status

theorem Accounts.step (h : d.Accounts past) (hstep : d.Step entries d') :
    d'.Accounts (past ++ entries) := by
  obtain ⟨dropped, hfailures, hnone⟩ := h.failures
  cases hstep with
  | idle => exact h.keep Entry.onlyCalls_nil rfl rfl rfl rfl
  | fail error hdisposed =>
    obtain rfl := hnone hdisposed
    rw [List.append_nil] at hfailures
    refine ⟨⟨[], ?_, fun _ ↦ rfl⟩, ?_, ?_, ?_⟩
    · simp [hfailures]
    · simpa [List.filterMap_cons] using h.values
    · simpa [List.filterMap_cons] using h.emissions
    · simp [ViewStatus.event?]
  | @announce error errors hnext hpasses =>
    rw [hnext] at hfailures
    refine ⟨⟨dropped, ?_, hnone⟩, ?_, ?_, ?_⟩
    · simpa [List.filterMap_cons] using hfailures
    · simpa [List.filterMap_cons] using h.values
    · simpa [List.filterMap_cons] using h.emissions
    · simpa [List.filterMap_cons] using h.status
  | compose value hpasses =>
    refine ⟨⟨dropped, ?_, hnone⟩, ?_, ?_, ?_⟩
    · simpa [List.filterMap_cons] using hfailures
    · simpa [List.filterMap_cons] using h.values
    · simpa [List.filterMap_cons] using h.emissions
    · simp [ViewStatus.event?]
  | call hpasses => exact h.keep (Entry.onlyCalls_map _ fun _ ↦ ⟨_, _, rfl⟩) rfl rfl rfl rfl
  | finish hpasses => exact h.keep Entry.onlyCalls_nil rfl rfl rfl rfl
  | register key => exact h.keep (Entry.onlyCalls_map _ fun _ ↦ ⟨_, _, rfl⟩) rfl rfl rfl rfl
  | unregister gone => exact h.keep Entry.onlyCalls_nil rfl rfl rfl rfl
  | @dispose errors hshorter =>
    obtain ⟨left, hleft⟩ := hshorter
    rw [List.append_nil]
    refine ⟨⟨left ++ dropped, ?_, fun hlive ↦ by simp at hlive⟩, h.values, h.emissions, h.status⟩
    rw [hfailures, ← hleft]
    simp

/-! ### What one listener hears, against passes -/

/-- The tickets grow from registration to registration, and passes call their listeners in that
order. -/
structure Sorted (d : Front β) : Prop where
  listeners : d.listeners.Ordered
  growing : ∀ pass ∈ d.passes, pass.tickets.Pairwise (· < ·)
  given : ∀ pass ∈ d.passes, ∀ ticket ∈ pass.tickets, ticket < d.listeners.next

theorem sorted_start : Sorted ({} : Front β) :=
  ⟨Registry.ordered_empty, by simp, by simp⟩

theorem Sorted.change {listeners : Registry Nat} (h : d.Sorted)
    (hchange : d.listeners.Change (fun _ ↦ True) listeners) :
    Sorted { d with listeners } :=
  ⟨hchange.ordered h.listeners, h.growing,
    fun pass hpass ticket hticket ↦ (h.given pass hpass ticket hticket).trans_le hchange.next_le⟩

/-- A pass begins with all who listen. -/
theorem Sorted.begin (h : d.Sorted) (event : ViewEvent β) :
    Sorted { d with passes := [⟨event, d.listeners.tickets⟩] } := by
  refine ⟨h.listeners, fun pass hpass ↦ ?_, fun pass hpass ticket hticket ↦ ?_⟩
  · rw [List.mem_singleton.mp hpass]
    exact List.pairwise_map.mpr h.listeners.sorted
  · rw [List.mem_singleton.mp hpass] at hticket
    obtain ⟨entry, hentry, rfl⟩ := List.mem_map.mp hticket
    exact h.listeners.given entry hentry

theorem Sorted.step (h : d.Sorted) (hstep : d.Step entries d') : d'.Sorted := by
  cases hstep with
  | idle => exact h
  | fail error hdisposed => exact ⟨h.listeners, h.growing, h.given⟩
  | announce hnext hpasses =>
    have hbegun := h.begin
    exact ⟨h.listeners, (hbegun _).growing, (hbegun _).given⟩
  | compose value hpasses =>
    have hbegun := h.begin
    exact ⟨h.listeners, (hbegun _).growing, (hbegun _).given⟩
  | @call event ticket tickets hpasses =>
    have hgrowing := h.growing ⟨event, ticket :: tickets⟩ (by simp [hpasses])
    have hgiven := h.given ⟨event, ticket :: tickets⟩ (by simp [hpasses])
    refine ⟨h.listeners, fun pass hpass ↦ ?_, fun pass hpass other hother ↦ ?_⟩
    · rw [List.mem_singleton.mp hpass]
      exact (List.pairwise_cons.mp hgrowing).2
    · rw [List.mem_singleton.mp hpass] at hother
      exact hgiven other (List.mem_cons_of_mem _ hother)
  | finish hpasses => exact ⟨h.listeners, by simp, by simp⟩
  | register key => exact h.change (.register key trivial)
  | unregister gone => exact h.change (.removeAll gone)
  | dispose hshorter =>
    have hcleared := h.change .clear
    exact ⟨hcleared.listeners, hcleared.growing, hcleared.given⟩

/-- The events of the passes that have not reached a listener yet. -/
def due (ticket : Nat) (d : Front β) : List (ViewEvent β) :=
  d.passes.filterMap fun pass ↦ if ticket ∈ pass.tickets then some pass.event else none

theorem due_nil (h : d.passes = []) : d.due ticket = [] := by
  rw [due, h, List.filterMap_nil]

theorem due_singleton {pass : Pass β} (h : d.passes = [pass]) :
    d.due ticket = if ticket ∈ pass.tickets then [pass.event] else [] := by
  rw [due, h, List.filterMap_cons]
  split <;> simp_all

theorem Step.next_le (hstep : d.Step entries d') : d.listeners.next ≤ d'.listeners.next := by
  cases hstep with
  | register key => exact Nat.le_succ _
  | _ => exact Nat.le_refl _

/-- Assumes: a ticket that was given out. -/
theorem Step.not_heard (hstep : d.Step entries d') (hissued : ticket < d.listeners.next)
    (hgone : ticket ∉ d'.listeners.tickets) : Entry.heardBy ticket entries = [] := by
  cases hstep with
  | register key => rw [Entry.heardBy_greeting, if_neg (Nat.ne_of_gt hissued)]
  | @call event other tickets hpasses =>
    rw [Entry.heardBy_call]
    split
    case isFalse => rfl
    case isTrue hticket =>
      cases hfound : d.listeners.find? other with
      | none => rfl
      | some key => exact absurd (Registry.mem_tickets_of_find? (hticket ▸ hfound)) hgone
  | _ => rfl

/-- A listener that is still there was there before, and hears what it was due to hear. Assumes: a
ticket that was given out. -/
theorem Step.tells (hstep : d.Step entries d') (hsorted : d.Sorted)
    (hissued : ticket < d.listeners.next) (hthere : ticket ∈ d'.listeners.tickets) :
    ticket ∈ d.listeners.tickets ∧ d'.disposed = d.disposed ∧
      Entry.heardBy ticket entries ++ d'.due ticket = d.due ticket ++ Entry.passes entries := by
  cases hstep with
  | idle => exact ⟨hthere, rfl, by simp⟩
  | fail error hdisposed => exact ⟨hthere, rfl, by simp [due]⟩
  | announce hnext hpasses =>
    refine ⟨hthere, rfl, ?_⟩
    rw [due_nil hpasses, due_singleton rfl, if_pos hthere]
    rfl
  | compose value hpasses =>
    refine ⟨hthere, rfl, ?_⟩
    rw [due_nil hpasses, due_singleton rfl, if_pos hthere]
    rfl
  | @call event other tickets hpasses =>
    refine ⟨hthere, rfl, ?_⟩
    have hcalls := Entry.onlyCalls_map (d.listeners.find? other) fun _ ↦ ⟨other, event, rfl⟩
    rw [hcalls.passes, List.append_nil, Entry.heardBy_call, due_singleton hpasses,
      due_singleton rfl]
    by_cases hticket : other = ticket
    · -- the listener is called now, and not once more
      subst hticket
      obtain ⟨key, hkey⟩ := Option.isSome_iff_exists.mp
        (Registry.find?_isSome_of_mem_tickets hthere)
      have hfound : d.listeners.find? other = some key := hkey
      have hgrowing := hsorted.growing ⟨event, other :: tickets⟩ (by simp [hpasses])
      have honce : other ∉ tickets := fun hagain ↦
        absurd ((List.pairwise_cons.mp hgrowing).1 other hagain) (Nat.lt_irrefl other)
      rw [if_pos rfl, hfound, if_neg honce, if_pos List.mem_cons_self]
      rfl
    · have hsame : ticket ∈ other :: tickets ↔ ticket ∈ tickets := by simp [Ne.symm hticket]
      rw [if_neg hticket, List.nil_append]
      simp only [hsame]
  | finish hpasses =>
    refine ⟨hthere, rfl, ?_⟩
    rw [due_singleton hpasses, due_nil rfl]
    simp
  | register key =>
    have hne : d.listeners.next ≠ ticket := Nat.ne_of_gt hissued
    have hthere' : ticket ∈ (d.listeners.register key).tickets := hthere
    rw [Registry.tickets_register, List.mem_append, List.mem_singleton] at hthere'
    refine ⟨hthere'.resolve_right hne.symm, rfl, ?_⟩
    have hcalls := Entry.onlyCalls_map d.status.event? fun event ↦ ⟨d.listeners.next, event, rfl⟩
    rw [Entry.heardBy_greeting, if_neg hne, hcalls.passes]
    simp [due]
  | unregister gone => exact ⟨Registry.mem_tickets_of_removeAll hthere, rfl, by simp [due]⟩
  | dispose hshorter => simp [Registry.clear, Registry.tickets] at hthere

/-- What a listener heard, and is due to hear while it is there, comes from passes, after what it
was due to hear at first. -/
structure Follows (ticket : Nat) (first : List (ViewEvent β)) (d : Front β)
    (since : List (Entry β)) : Prop where
  issued : ticket < d.listeners.next
  told : ticket ∈ d.listeners.tickets →
    Entry.heardBy ticket since ++ d.due ticket = first ++ Entry.passes since
  part : Entry.heardBy ticket since <+: first ++ Entry.passes since

theorem Follows.step (h : d.Follows ticket first past) (hsorted : d.Sorted)
    (hstep : d.Step entries d') : d'.Follows ticket first (past ++ entries) := by
  have htold : ticket ∈ d'.listeners.tickets →
      Entry.heardBy ticket (past ++ entries) ++ d'.due ticket =
        first ++ Entry.passes (past ++ entries) := by
    intro hthere
    obtain ⟨hbefore, -, htells⟩ := hstep.tells hsorted h.issued hthere
    rw [Entry.heardBy_append, Entry.passes_append, List.append_assoc, htells, ← List.append_assoc,
      h.told hbefore, List.append_assoc]
  refine ⟨h.issued.trans_le hstep.next_le, htold, ?_⟩
  by_cases hthere : ticket ∈ d'.listeners.tickets
  · exact ⟨d'.due ticket, htold hthere⟩
  · rw [Entry.heardBy_append, hstep.not_heard h.issued hthere, List.append_nil,
      Entry.passes_append, ← List.append_assoc]
    exact h.part.trans (List.prefix_append _ _)

/-- A listener is called when it registers, and by the pass under way. -/
theorem Step.of_heard {event : ViewEvent β} (hstep : d.Step entries d')
    (hheard : .heard ticket event ∈ entries) :
    ticket = d.listeners.next ∨ d.passes.map (·.event) = [event] := by
  cases hstep with
  | register key =>
    obtain ⟨_, _, hentry⟩ := List.mem_map.mp hheard
    exact .inl (Entry.heard.inj hentry).1.symm
  | call hpasses =>
    obtain ⟨_, _, hentry⟩ := List.mem_map.mp hheard
    rw [hpasses, ← (Entry.heard.inj hentry).2]
    exact .inr rfl
  | _ => simp at hheard

end Front

namespace Situation

variable {s : Situation α β}

theorem Regular.length_passes_le (h : s.Regular) : s.front.passes.length ≤ 1 := by
  cases htasks : s.tasks with
  | nil => simp [front, htasks]
  | cons task tasks =>
    rw [(h.passes_eq htasks).1]
    cases task.pass? <;> simp

theorem Regular.unannounced_of_idle (h : s.Regular) (htasks : s.tasks = []) :
    s.front.unannounced = [] := by
  have hfailures : s.view.failures = [] := by
    cases hdisposed : s.view.disposed with
    | true => exact h.silent hdisposed
    | false => exact (h.accounted.idle htasks hdisposed).2.2
  simp [front, unannounced, htasks, hfailures]

end Situation

namespace Machine

/-! ### Passes in a run -/

theorem accounts_of_run {moves : List (Move α β)} (hcalm : Along RaiseFree moves {})
    {view : ViewId} {s : Situation α β} (hs : (run moves {}).situation view = some s) :
    s.front.Accounts (chronicle view moves {}) :=
  front_invariant Front.accounts_start (fun _ _ _ _ h hstep ↦ h.step hstep) hcalm hs

theorem sorted_of_run {moves : List (Move α β)} (hcalm : Along RaiseFree moves {}) {view : ViewId}
    {s : Situation α β} (hs : (run moves {}).situation view = some s) : s.front.Sorted := by
  have hstep : ∀ (d : Front β) (_ : List (Entry β)) entries d', d.Sorted → d.Step entries d' →
      d'.Sorted := fun _ _ _ _ h hstep ↦ h.step hstep
  exact front_invariant Front.sorted_start hstep hcalm hs

/-- While a pass over the listeners of a view is under way, no other begins, and listeners are
called only by that pass, or because they register. Assumes: a run in which nothing raises. -/
theorem sequential_of_run {moves : List (Move α β)} (hcalm : Along RaiseFree moves {})
    {view : ViewId} {s : Situation α β} (hs : (run moves {}).situation view = some s) :
    ((run moves {}).passes view).length ≤ 1 ∧
      ∀ move, (run moves {}).RaiseFree move →
        ((run moves {}).passes view ≠ [] → (run moves {}).begun view move = []) ∧
        ∀ ticket event, .heard ticket event ∈ historyOf view ((run moves {}).notices move) →
          ticket = s.view.listeners.next ∨
            ((run moves {}).passes view).map (·.event) = [event] := by
  have hsound : (run moves {}).Sound := Sound.start.run hcalm
  have hregular : s.Regular := regular_of_run hcalm hs
  have hone : ((run moves {}).passes view).length ≤ 1 := by
    rw [passes_of_situation hs]
    exact hregular.length_passes_le
  refine ⟨hone, fun move hmove ↦ ?_⟩
  rcases steps_move (i := view) move hsound hmove with htakes | ⟨hunborn, -⟩
  case inr =>
    rw [situation, hunborn.1] at hs
    contradiction
  obtain ⟨s', hs', hstep, hentries⟩ := advances_of_takes htakes hs
  refine ⟨fun hbusy ↦ ?_, fun ticket event hheard ↦ ?_⟩
  · refine Pass.begun_of_length_le ?_
    have hnext : (((run moves {}).move move).passes view).length ≤ 1 := by
      rw [passes_of_situation hs']
      exact (hregular.step hstep).length_passes_le
    exact hnext.trans (List.length_pos_iff.mpr hbusy)
  · have hmem : .heard ticket event ∈ (run moves {}).entries view move :=
      List.mem_append_left _ (List.mem_filterMap.mpr ⟨_, hheard, rfl⟩)
    rw [hentries] at hmem
    rw [passes_of_situation hs]
    exact (hregular.advances hstep).front.of_heard hmem

/-- The passes over the listeners of a view come one after the other, and nothing is left out: of
the failures that inputs were given, those that had a pass come first, in order, and at rest these
are all unless the view was disposed of; each value that was composed had one pass and is counted
once; and a listener that is there between two moments of rest hears what the passes between them
announce. Assumes: a run in which nothing raises. -/
theorem announced_of_run (before during : List (Move α β)) (view : ViewId)
    (hcalm : Along RaiseFree (before ++ during) {}) {v : View α β}
    (hview : (run (before ++ during) {}).world.views[view]? = some v) :
    let m := run (before ++ during) {}
    let emitted := ViewNotice.emissions (historyOf view (history (before ++ during) {}))
    let passes := announced view (before ++ during) {}
    ((m.passes view).length ≤ 1 ∧
      ∀ move, m.RaiseFree move →
        (m.passes view ≠ [] → m.begun view move = []) ∧
        ∀ ticket event, .heard ticket event ∈ historyOf view (m.notices move) →
          ticket = v.listeners.next ∨ (m.passes view).map (·.event) = [event]) ∧
    (∃ waiting, emitted.filterMap (·.error?) = passes.filterMap (·.error?) ++ waiting ∧
      (m.AtRest → v.disposed = false → waiting = [])) ∧
    (passes.filterMap (·.value?) = emitted.filterMap (·.value?) ∧
      v.emissions = (emitted.filterMap (·.value?)).length) ∧
    ((run before {}).AtRest → m.AtRest → ∀ v₀, (run before {}).world.views[view]? = some v₀ →
      ∀ ticket ∈ v₀.listeners.tickets, ticket ∈ v.listeners.tickets →
        ViewNotice.heardBy ticket (historyOf view (history during (run before {}))) =
          announced view during (run before {})) := by
  intro m emitted passes
  have hs := situation_of_view hview
  have hemitted : Entry.emissions (chronicle view (before ++ during) {}) = emitted :=
    emissions_chronicle view (before ++ during) {}
  have haccounts := accounts_of_run hcalm hs
  obtain ⟨hbefore, hduring⟩ := along_append.mp hcalm
  refine ⟨sequential_of_run hcalm hs, ?_, ⟨?_, ?_⟩, ?_⟩
  · obtain ⟨dropped, hfailures, hnone⟩ := haccounts.failures
    rw [hemitted, List.append_assoc] at hfailures
    refine ⟨_, hfailures, fun hrest hlive ↦ ?_⟩
    have hidle : m.tasks view = [] := by rw [tasks, hrest.1]; rfl
    rw [(regular_of_run hcalm hs).unannounced_of_idle hidle, hnone hlive]
    rfl
  · rw [← hemitted]
    exact haccounts.values
  · rw [← hemitted]
    exact haccounts.emissions
  · intro hrest₀ hrest v₀ hview₀ ticket hticket₀ hticket
    have hs₀ := hrest₀.situation hview₀
    have hsorted₀ := sorted_of_run hbefore hs₀
    have hissued : ticket < v₀.listeners.next := by
      obtain ⟨entry, hentry, rfl⟩ := List.mem_map.mp hticket₀
      exact hsorted₀.listeners.given entry hentry
    have hstart : Front.Follows ticket [] (Situation.front
        { view := v₀, tasks := [], jobs := (run before {}).jobs view }) [] :=
      ⟨hissued, fun _ ↦ rfl, List.prefix_refl _⟩
    have hstep : ∀ (d : Front β) since entries d', d.Sorted ∧ d.Follows ticket [] since →
        d.Step entries d' → d'.Sorted ∧ d'.Follows ticket [] (since ++ entries) :=
      fun _ _ _ _ h hstep ↦ ⟨h.1.step hstep, h.2.step h.1 hstep⟩
    obtain ⟨s', hs', -, hfollows⟩ := front_run hstep (Sound.start.run hbefore) hduring hs₀
      (regular_of_run hbefore hs₀) ⟨hsorted₀, hstart⟩
    rw [← run_append] at hs'
    obtain rfl := Option.some.inj (hs'.symm.trans (hrest.situation hview))
    have htold := hfollows.told hticket
    rwa [Front.due_nil rfl, List.append_nil, List.nil_append, List.nil_append,
      heardBy_chronicle] at htold

/-- The first listener, told of a failure, makes the input fail once more. Later it recovers. -/
def failingTwice : List (Move Nat (List Nat)) :=
  Move.script 16 [.emit 0 (.failed ⟨"a", "early"⟩), .emit 0 (.failed ⟨"a", "late"⟩), .finish, .finish,
    .finish, .finish, .emit 0 (.loaded 2), .finish, .finish]

set_option maxRecDepth 4000 in
theorem announced_failingTwice :
    Along RaiseFree (heardByTwo ++ failingTwice) {} ∧ (run heardByTwo {}).AtRest ∧
      (run (heardByTwo ++ failingTwice) {}).AtRest ∧
      ∃ v, (run (heardByTwo ++ failingTwice) {}).world.views[0]? = some v ∧ v.emissions = 1 ∧
        ∀ ticket ∈ [0, 1],
          ViewNotice.heardBy ticket (historyOf 0 (history failingTwice (run heardByTwo {}))) =
            [.failed ⟨"a", "early"⟩, .failed ⟨"a", "late"⟩, .ready [2]] := by
  have hcalm : Along RaiseFree (heardByTwo ++ failingTwice) {} := by decide +kernel
  have hrest₀ : (run heardByTwo {}).AtRest := by decide +kernel
  have hrest : (run (heardByTwo ++ failingTwice) {}).AtRest := by decide +kernel
  have hview₀ : (run heardByTwo {}).world.views[0]? = some
      { label := "a", composer := .direct id, slots := [{}], inputs := [(0, 0)],
        listeners := { next := 2, entries := [(0, 7), (1, 8)] }, owned := true } := by cbv
  have hview : (run (heardByTwo ++ failingTwice) {}).world.views[0]? = some
      { label := "a", composer := .direct id, slots := [{ status := .loaded, cached := some 2 }],
        inputs := [(0, 0)], status := .ready [2],
        listeners := { next := 2, entries := [(0, 7), (1, 8)] }, stale := false, emissions := 1,
        owned := true } := by cbv
  obtain ⟨-, -, -, hheard⟩ := announced_of_run heardByTwo failingTwice 0 hcalm hview
  have hannounced : announced 0 failingTwice (run heardByTwo {}) =
      [.failed ⟨"a", "early"⟩, .failed ⟨"a", "late"⟩, .ready [2]] := by decide +kernel
  refine ⟨hcalm, hrest₀, hrest, _, hview, rfl, fun ticket hticket ↦ ?_⟩
  rw [hheard hrest₀ hrest _ hview₀ ticket hticket hticket, hannounced]

end Machine

end LiveRecord.Flow
