import Mathlib.Data.List.Perm.Subperm
import Mathlib.Data.List.Permutation
import LiveRecord.Proofs.Flow.Restacking

/-!
# What a listener of a source receives

A listener that registers with a source hears the current event, and then the source owes it every
event that it accepts. A source that accepts an event in the middle of a delivery delivers the later
event first, so a listener that the outer delivery has not reached hears the later event before the
earlier one (`Machine.received_answeredFirst`). If nothing raises, a listener that is still active
at rest has received each accepted event once. It has received them in the order of acceptance
exactly where the source never accepts an event while it owes the listener another one
(`Machine.received_of_atRest`).
-/

set_option autoImplicit false

namespace LiveRecord.Flow

variable {α β : Type}

/-! ### What is accepted, handed over and owed -/

/-- The events that a source accepted, in order. -/
def acceptedBy (source : SourceId) (history : List (Notice α β)) : List (Event α) :=
  (acceptedIn history).filterMap fun entry ↦ if entry.1 = source then some entry.2 else none

/-- The event of a delivery that has not reached the listener yet. -/
def Frame.owed (source : SourceId) (ticket : Nat) : Frame α β → List (Event α)
  | delivering other event tickets =>
    if other = source ∧ ticket ∈ tickets then [event] else []
  | _ => []

/-- The events that deliveries under way have still to hand to the listener, the innermost delivery
first. -/
def owedTo (source : SourceId) (ticket : Nat) (stack : List (Frame α β)) : List (Event α) :=
  stack.flatMap (·.owed source ticket)

namespace Machine

/-- The current event of the source, if the next listener gets that ticket. -/
def greeting (source : SourceId) (ticket : Nat) (m : Machine α β) : List (Event α) :=
  match m.world.sources[source]? with
  | none => []
  | some s => if s.listeners.next = ticket then [s.current] else []

/-- What a move hands to the listener of a source: the current event when the listener registers,
and the event of a delivery that reaches it. -/
def handed (source : SourceId) (ticket : Nat) (move : Move α β) (m : Machine α β) :
    List (Event α) :=
  match move, m.control with
  | .request (.subscribe (.source other) _), .user _ =>
    if other = source then m.greeting source ticket else []
  | .advance, .returning _ =>
    match m.stack with
    | .delivering other event (next :: _) :: _ =>
      if other = source ∧ next = ticket ∧ (m.world.sourceListener? source ticket).isSome then [event]
      else []
    | .connecting _ ((other, _) :: _) :: _ =>
      if other = source then m.greeting source ticket else []
    | _ => []
  | _, _ => []

/-- What a listener of a source receives in the course of a run. -/
def receivedBy (source : SourceId) (ticket : Nat) : List (Move α β) → Machine α β → List (Event α)
  | [], _ => []
  | move :: rest, m => m.handed source ticket move ++ receivedBy source ticket rest (m.move move)

/-- The move registers the next listener of the source: a callback, or an input of a new view. -/
def Registers (source : SourceId) (m : Machine α β) : Move α β → Prop
  | .request (.subscribe (.source other) _) => m.hasUser ∧ other = source
  | .advance => ∃ answer view slot inputs below, m.control = .returning answer ∧
      m.stack = .connecting view ((source, slot) :: inputs) :: below
  | _ => False

/-- What a move gives up that has not reached the listener. -/
def lost (source : SourceId) (ticket : Nat) (move : Move α β) (m : Machine α β) : List (Event α) :=
  match move, m.control with
  | .advance, .unwinding _ => owedTo source ticket m.stack.head?.toList
  | _, _ => []

/-- The source accepts no event while it owes the listener another one, and nothing is lost. -/
def InTurn (source : SourceId) (ticket : Nat) (m : Machine α β) (move : Move α β) : Prop :=
  (acceptedBy source (m.notices move) = [] ∨ owedTo source ticket m.stack = []) ∧
    m.lost source ticket move = []

instance (source : SourceId) (ticket : Nat) (m : Machine α β) (move : Move α β) :
    Decidable (m.InTurn source ticket move) := by
  unfold InTurn
  infer_instance

end Machine

/-! ### Accounts of events -/

/-- What one move does to the events that a listener is owed, the one that it gets next in front. -/
inductive Handover {ε : Type} (owed : List ε) : (handed accepted lost owed' : List ε) → Prop
  | idle : Handover owed [] [] [] owed
  | accept (event : ε) : Handover owed [] [event] [] (event :: owed)
  | deliver {event : ε} {rest : List ε} (howed : owed = event :: rest) :
      Handover owed [event] [] [] rest
  | lose {event : ε} {rest : List ε} (howed : owed = event :: rest) : Handover owed [] [] [event] rest

/-- An event was lost, or one is received before an earlier one. -/
def Overtaken {ε : Type} (due got : List ε) : Prop :=
  got.length < due.length ∨ ∃ first last, [first, last].Sublist due ∧ [last, first].Sublist got

namespace Handover

variable {ε : Type} {owed handed accepted lost owed' received due : List ε}

/-- What is received and owed is part of what is due. -/
theorem subperm (h : Handover owed handed accepted lost owed')
    (hbefore : (received ++ owed).Subperm due) :
    (received ++ handed ++ owed').Subperm (due ++ accepted) := by
  cases h with
  | idle => simpa using hbefore
  | accept event =>
    have hmiddle : (received ++ [] ++ event :: owed).Perm ((received ++ owed) ++ [event]) := by
      rw [List.append_nil]
      exact List.perm_middle.trans (List.perm_append_singleton event _).symm
    exact hmiddle.subperm.trans (hbefore.append (List.Subperm.refl _))
  | deliver howed =>
    subst howed
    simpa using hbefore
  | lose howed =>
    subst howed
    rw [List.append_nil, List.append_nil]
    exact (((List.sublist_cons_self _ _).append_left received).subperm).trans hbefore

/-- Assumes: nothing is lost. -/
theorem length_eq (h : Handover owed handed accepted lost owed') (hlost : lost = [])
    (hbefore : (received ++ owed).length = due.length) :
    (received ++ handed ++ owed').length = (due ++ accepted).length := by
  cases h with
  | lose howed => simp at hlost
  | deliver howed =>
    subst howed
    simpa using hbefore
  | idle => simpa using hbefore
  | accept event =>
    simp only [List.length_append, List.length_cons, List.length_nil] at hbefore ⊢
    omega

/-- Assumes: the event that is accepted is the next one to be received, and nothing is lost. -/
theorem eq_of_inTurn (h : Handover owed handed accepted lost owed')
    (hturn : accepted = [] ∨ owed = []) (hlost : lost = []) (hbefore : received ++ owed = due) :
    received ++ handed ++ owed' = due ++ accepted := by
  cases h with
  | accept event =>
    obtain rfl := hturn.resolve_left (by simp)
    rw [← hbefore, List.append_nil]
  | lose howed => simp at hlost
  | idle => simpa using hbefore
  | deliver howed =>
    subst howed
    simpa using hbefore

/-- What was overtaken stays so. -/
theorem overtaken (h : Handover owed handed accepted lost owed')
    (hbefore : Overtaken due (received ++ owed)) (hsub : (received ++ owed).Subperm due) :
    Overtaken (due ++ accepted) (received ++ handed ++ owed') := by
  cases h with
  | idle => simpa using hbefore
  | accept event =>
    rcases hbefore with hless | ⟨first, last, hdue, hgot⟩
    · refine .inl ?_
      simp only [List.length_append, List.length_cons, List.append_nil] at hless ⊢
      omega
    · refine .inr ⟨first, last, hdue.trans (List.sublist_append_left _ _), ?_⟩
      rw [List.append_nil]
      exact hgot.trans ((List.sublist_cons_self event owed).append_left received)
  | deliver howed =>
    subst howed
    simpa using hbefore
  | lose howed =>
    subst howed
    refine .inl ?_
    have hlength := hsub.length_le
    simp only [List.length_append, List.length_cons, List.append_nil] at hlength ⊢
    omega

/-- An event that is accepted out of turn overtakes one that is owed. -/
theorem overtaken_of_not_inTurn (h : Handover owed handed accepted lost owed')
    (hturn : ¬((accepted = [] ∨ owed = []) ∧ lost = [])) (hsub : (received ++ owed).Subperm due) :
    Overtaken (due ++ accepted) (received ++ handed ++ owed') := by
  cases h with
  | idle => simp at hturn
  | deliver howed => simp at hturn
  | accept event =>
    cases owed with
    | nil => simp at hturn
    | cons first rest =>
      have hfirst : first ∈ due := hsub.subset (by simp)
      refine .inr ⟨first, event, ?_, ?_⟩
      · exact (List.singleton_sublist.mpr hfirst).append (List.Sublist.refl [event])
      · rw [List.append_nil]
        exact List.Sublist.trans (((List.nil_sublist rest).cons_cons first).cons_cons event)
          (List.sublist_append_right received _)
  | lose howed =>
    subst howed
    refine .inl ?_
    have hlength := hsub.length_le
    simp only [List.length_append, List.length_cons, List.append_nil] at hlength ⊢
    omega

end Handover

theorem not_sublist_swap {ε : Type} {first last : ε} {list : List ε} (hdistinct : list.Nodup)
    (h : [first, last].Sublist list) : ¬[last, first].Sublist list := by
  induction list with
  | nil => simp at h
  | cons head rest ih =>
    obtain ⟨hhead, hrest⟩ := List.nodup_cons.mp hdistinct
    intro hback
    cases h with
    | cons _ hforth =>
      cases hback with
      | cons _ hback => exact ih hrest hforth hback
      | cons_cons _ _ => exact hhead (hforth.subset (by simp))
    | cons_cons _ hlast =>
      cases hback with
      | cons _ hback => exact hhead (hback.subset (by simp))
      | cons_cons _ _ => exact hhead (hlast.subset (by simp))

/-- Assumes: no event is due twice. -/
theorem Overtaken.ne {ε : Type} {due got : List ε} (h : Overtaken due got) (hdistinct : due.Nodup) :
    got ≠ due := by
  rintro rfl
  rcases h with hless | ⟨first, last, hforth, hback⟩
  · exact absurd hless (Nat.lt_irrefl _)
  · exact not_sublist_swap hdistinct hforth hback

/-! ### What moves do to what is owed -/

section Owed

variable {source : SourceId} {ticket : Nat} {frame : Frame α β} {below new : List (Frame α β)}

theorem owedTo_cons :
    owedTo source ticket (frame :: below) = frame.owed source ticket ++ owedTo source ticket below :=
  List.flatMap_cons

theorem owedTo_singleton : owedTo source ticket [frame] = frame.owed source ticket := by
  simp [owedTo]

theorem owedTo_append :
    owedTo source ticket (new ++ below) = owedTo source ticket new ++ owedTo source ticket below :=
  List.flatMap_append

theorem owedTo_eq_nil_of_hands (hhands : ∀ frame ∈ new, frame.hands) :
    owedTo source ticket new = [] := by
  refine List.flatMap_eq_nil_iff.mpr fun frame hframe ↦ ?_
  have hhand := hhands frame hframe
  cases frame with
  | delivering _ _ _ => simp [Frame.hands] at hhand
  | _ => rfl

theorem owedTo_work {view : ViewId} (hnew : WorkFrames view new) :
    owedTo source ticket new = [] := by
  cases hnew <;> rfl

theorem Frame.Looks.owed {view : ViewId} (hframe : frame.Looks view) :
    frame.owed source ticket = [] := by
  cases hframe <;> rfl

theorem Frame.Starts.owedTo {world : World α β} {above : List (Frame α β)}
    (h : frame.Starts world above) : owedTo source ticket above = [] := by
  cases h with
  | nothing => rfl
  | call call => rfl
  | work hnew _ =>
    rw [owedTo_append, owedTo_work hnew]
    rfl

end Owed

namespace Machine

variable {m m' : Machine α β} {source : SourceId} {ticket : Nat}
  {accepted : List (SourceId × Event α)}

/-- Assumes: a listener that is registered, and no delivery on top that goes one step further or is
given up. -/
theorem owedTo_restacks (hrestacks : m.Restacks accepted m')
    (htop : ∀ other event next tickets below,
      m.stack ≠ .delivering other event (next :: tickets) :: below)
    (hpresent : ticket ∈ m.world.sourceTickets source) :
    owedTo source ticket m'.stack =
      (accepted.filterMap fun entry ↦ if entry.1 = source then some entry.2 else none) ++
        owedTo source ticket m.stack := by
  cases hrestacks with
  | swap hgone hkept hstack hstack' hunmoved =>
    rw [hstack, hstack', owedTo_append, owedTo_append, owedTo_eq_nil_of_hands hgone,
      owedTo_eq_nil_of_hands hkept]
    rfl
  | call hkept hstack' hunmoved =>
    rw [hstack', owedTo_cons, owedTo_append, owedTo_eq_nil_of_hands hkept]
    rfl
  | ended hstack hworld =>
    rw [hstack]
    rfl
  | @emit _ other event answer gone kept below hthere hgone hkept hstack hstack' hworld =>
    rw [hstack', owedTo_cons, owedTo_cons, owedTo_append, owedTo_eq_nil_of_hands hkept, hstack,
      owedTo_append, owedTo_eq_nil_of_hands hgone]
    by_cases hother : other = source
    · subst hother
      simp [Frame.owed, hpresent]
    · simp [Frame.owed, hother]
  | build hstack' hunmoved =>
    rw [hstack']
    rfl
  | close hstack hstack' hviews hunmoved =>
    rw [hstack, hstack']
    rfl
  | abandoned hunwinding hstack hunmoved =>
    rw [hstack]
    rfl
  | @drop _ frame hstack hmark hdone hunmoved =>
    rw [hstack, owedTo_cons]
    cases frame with
    | delivering other event tickets =>
      cases tickets with
      | nil => simp [Frame.owed]
      | cons next rest => exact absurd hstack (htop other event next rest _)
    | _ => rfl
  | @proceed _ frame next above below hnext hstack hstack' habove hunmoved =>
    rw [hstack, hstack', owedTo_append, habove.owedTo, owedTo_cons, owedTo_cons]
    cases hnext with
    | delivering other event next rest => exact absurd hstack (htop other event next rest _)
    | _ => rfl
  | fail hstack hstack' hunmoved =>
    rw [hstack, hstack']
    rfl
  | work hframe hnew hstack hstack' hunmoved =>
    rw [hstack, hstack', owedTo_append, owedTo_work hnew, owedTo_cons, hframe.owed]
    rfl
  | connected hnew hbegins hstack hstack' hunmoved =>
    rw [hstack, hstack', owedTo_append, owedTo_work hnew]
    rfl

/-! ### The tickets of deliveries -/

theorem delivering_notMem_hands {event : Event α} {tickets : List Nat} {new : List (Frame α β)}
    (hhands : ∀ frame ∈ new, frame.hands) : .delivering source event tickets ∉ new := by
  intro hmem
  have hhand := hhands _ hmem
  simp [Frame.hands] at hhand

theorem delivering_notMem_work {view : ViewId} {event : Event α} {tickets : List Nat}
    {new : List (Frame α β)} (hnew : WorkFrames view new) :
    .delivering source event tickets ∉ new := by
  cases hnew <;> simp

/-- A delivery under way has just begun, or was under way with at least these tickets. -/
theorem mem_delivering_restacks {event : Event α} {tickets : List Nat}
    (hrestacks : m.Restacks accepted m') (h : .delivering source event tickets ∈ m'.stack) :
    tickets = m.world.sourceTickets source ∨
      ∃ before, .delivering source event (before ++ tickets) ∈ m.stack := by
  have hkept : .delivering source event tickets ∈ m.stack →
      ∃ before, .delivering source event (before ++ tickets) ∈ m.stack := fun hmem ↦ ⟨[], hmem⟩
  cases hrestacks with
  | swap hgone hkept' hstack hstack' hunmoved =>
    rw [hstack', List.mem_append] at h
    rw [hstack] at hkept ⊢
    exact .inr (hkept (List.mem_append_right _ (h.resolve_left (delivering_notMem_hands hkept'))))
  | call hkept' hstack' hunmoved =>
    rw [hstack', List.mem_cons, List.mem_append] at h
    exact .inr (hkept ((h.resolve_left (by simp)).resolve_left (delivering_notMem_hands hkept')))
  | ended hstack hworld =>
    rw [hstack] at hkept ⊢
    exact .inr (hkept (List.mem_cons_of_mem _ h))
  | emit hthere hgone hkept' hstack hstack' hworld =>
    rw [hstack', List.mem_cons, List.mem_cons, List.mem_append] at h
    rw [hstack] at hkept ⊢
    rcases h with heq | heq | hmem | hbelow
    · obtain ⟨rfl, -, rfl⟩ := Frame.delivering.inj heq
      exact .inl rfl
    · simp at heq
    · exact absurd hmem (delivering_notMem_hands hkept')
    · exact .inr (hkept (List.mem_append_right _ hbelow))
  | build hstack' hunmoved =>
    rw [hstack'] at h
    exact .inr (hkept (by simpa using h))
  | close hstack hstack' hviews hunmoved =>
    rw [hstack'] at h
    rw [hstack] at hkept ⊢
    exact .inr (hkept (List.mem_cons_of_mem _ (by simpa using h)))
  | abandoned hunwinding hstack hunmoved =>
    rw [hstack] at hkept ⊢
    exact .inr (hkept (List.mem_cons_of_mem _ h))
  | drop hstack hmark hdone hunmoved =>
    rw [hstack] at hkept ⊢
    exact .inr (hkept (List.mem_cons_of_mem _ h))
  | @proceed _ frame next above below hnext hstack hstack' habove hunmoved =>
    have hnot : .delivering source event tickets ∉ above := by
      cases habove with
      | nothing => simp
      | call call => simp
      | work hnew _ =>
        rw [List.mem_append, not_or]
        exact ⟨delivering_notMem_work hnew, by simp⟩
    rw [hstack', List.mem_append, List.mem_cons] at h
    rw [hstack] at hkept ⊢
    rcases h.resolve_left hnot with rfl | hbelow
    · cases hnext with
      | delivering _ _ ticket _ => exact .inr ⟨[ticket], List.mem_cons_self⟩
    · exact .inr (hkept (List.mem_cons_of_mem _ hbelow))
  | fail hstack hstack' hunmoved =>
    rw [hstack'] at h
    rw [hstack] at hkept ⊢
    exact .inr (hkept (List.mem_cons_of_mem _ (by simpa using h)))
  | work hframe hnew hstack hstack' hunmoved =>
    rw [hstack', List.mem_append] at h
    rw [hstack] at hkept ⊢
    exact .inr (hkept (List.mem_cons_of_mem _ (h.resolve_left (delivering_notMem_work hnew))))
  | connected hnew hbegins hstack hstack' hunmoved =>
    rw [hstack', List.mem_append] at h
    rw [hstack] at hkept ⊢
    exact .inr (hkept (List.mem_cons_of_mem _ (h.resolve_left (delivering_notMem_work hnew))))

/-- The tickets of a delivery under way are distinct, and have been given out. -/
def Tidy (m : Machine α β) : Prop :=
  ∀ source event tickets, .delivering source event tickets ∈ m.stack →
    tickets.Nodup ∧ ∀ ticket ∈ tickets, m.world.Given source ticket

theorem nodup_sourceTickets (hordered : m.world.Ordered) :
    (m.world.sourceTickets source).Nodup ∧
      ∀ ticket ∈ m.world.sourceTickets source, m.world.Given source ticket := by
  unfold World.sourceTickets
  split
  case h_1 s hs =>
    refine ⟨?_, fun ticket hticket ↦ ?_⟩
    · exact (List.pairwise_map.mpr (hordered source s hs).sorted).imp Nat.ne_of_lt
    · obtain ⟨entry, hentry, rfl⟩ := List.mem_map.mp hticket
      exact ⟨s, hs, (hordered source s hs).given entry hentry⟩
  case h_2 => simp

theorem tidy_move (move : Move α β) (hwired : m.Wired) (hordered : m.world.Ordered) (h : m.Tidy) :
    (m.move move).Tidy := by
  have hgiven : ∀ source ticket, m.world.Given source ticket →
      (m.move move).world.Given source ticket := fun source ticket hticket ↦
    ((changes_move move m).given hticket).1
  have hold : ∀ source event before tickets, .delivering source event (before ++ tickets) ∈ m.stack →
      tickets.Nodup ∧ ∀ ticket ∈ tickets, (m.move move).world.Given source ticket := by
    intro source event before tickets hmem
    obtain ⟨hdistinct, htickets⟩ := h source event _ hmem
    exact ⟨(List.nodup_append.mp hdistinct).2.1, fun ticket hticket ↦
      hgiven source ticket (htickets ticket (List.mem_append_right _ hticket))⟩
  intro source event tickets hmem
  by_cases hticks : m.opens move ∨ m.closes move
  · obtain ⟨-, -, hsame | ⟨views, hdraining⟩⟩ := ticks_move hticks
    · exact hold source event [] tickets (hsame ▸ hmem)
    · rw [hdraining] at hmem
      exact hold source event [] tickets (by simpa using hmem)
  · rcases mem_delivering_restacks (restacks_move move hwired hticks) hmem with
      rfl | ⟨before, hbefore⟩
    · obtain ⟨hdistinct, htickets⟩ := @nodup_sourceTickets α β m source hordered
      exact ⟨hdistinct, fun ticket hticket ↦ hgiven source ticket (htickets ticket hticket)⟩
    · exact hold source event before tickets hbefore

/-! ### What one move hands over -/

theorem eq_current_of_greeting {event : Event α} (h : event ∈ m.greeting source ticket) :
    ∃ s, m.world.sources[source]? = some s ∧ event = s.current := by
  unfold greeting at h
  split at h
  case h_1 => contradiction
  case h_2 s hs =>
    split at h
    · exact ⟨s, hs, List.mem_singleton.mp h⟩
    · contradiction

/-- What is handed over is what the callback is called with, or what the input hears. -/
theorem called_or_hears_of_handed {move : Move α β} {event : Event α}
    (h : event ∈ m.handed source ticket move) :
    (∃ key, (m.move move).control = .user (.called (.sourceEvent key event))) ∨
      ∃ (m' : Machine α β) (view : ViewId) (slot : Nat), m.move move = m'.hear view slot event := by
  unfold handed at h
  split at h
  case h_3 => contradiction
  case h_1 other key heard hcontrol =>
    split at h
    case isFalse => contradiction
    case isTrue hother =>
      obtain ⟨s, hs, rfl⟩ := eq_current_of_greeting h
      subst hother
      refine .inl ⟨key, ?_⟩
      simp only [Machine.move, submit, hcontrol, serve, subscribe, hs]
      rfl
  case h_2 answer hcontrol =>
    simp only [Machine.move, advance, hcontrol, resume]
    split at h
    case h_3 => contradiction
    case h_1 other event' next tickets below hstack =>
      split at h
      case isFalse => contradiction
      case isTrue hreached =>
        obtain ⟨rfl, rfl, hthere⟩ := hreached
        obtain rfl := List.mem_singleton.mp h
        obtain ⟨listener, hlistener⟩ := Option.isSome_iff_exists.mp hthere
        simp only [hstack, hlistener]
        cases listener with
        | callback key => exact .inl ⟨key, rfl⟩
        | input view slot => exact .inr ⟨_, view, slot, rfl⟩
    case h_2 view other slot inputs below hstack =>
      split at h
      case isFalse => contradiction
      case isTrue hother =>
        obtain ⟨s, hs, rfl⟩ := eq_current_of_greeting h
        subst hother
        simp only [hstack, connect, hs]
        exact .inr ⟨_, view, slot, rfl⟩

theorem greeting_of_given (h : m.world.Given source ticket) : m.greeting source ticket = [] := by
  obtain ⟨s, hs, hticket⟩ := h
  rw [greeting, hs]
  exact if_neg (Nat.ne_of_gt hticket)

theorem handed_request (request : Request α β) (h : m.world.Given source ticket) :
    m.handed source ticket (.request request) = [] := by
  unfold handed
  split
  case h_1 => rw [greeting_of_given h, ite_self]
  case h_2 heq _ => contradiction
  case h_3 => rfl

/-- Assumes: no delivery on top that goes one step further. -/
theorem handed_advance (h : m.world.Given source ticket)
    (htop : ∀ other event next tickets below,
      m.stack ≠ .delivering other event (next :: tickets) :: below) :
    m.handed source ticket .advance = [] := by
  unfold handed
  split
  case h_1 heq _ => contradiction
  case h_3 => rfl
  case h_2 =>
    split
    case h_1 hstack => exact absurd hstack (htop _ _ _ _ _)
    case h_2 => rw [greeting_of_given h, ite_self]
    case h_3 => rfl

theorem mem_sourceTickets_of_listener (h : (m.world.sourceListener? source ticket).isSome) :
    ticket ∈ m.world.sourceTickets source := by
  obtain ⟨listener, hlistener⟩ := Option.isSome_iff_exists.mp h
  obtain ⟨s, hs, hfound⟩ := Option.bind_eq_some_iff.mp hlistener
  rw [World.sourceTickets, hs]
  exact Registry.mem_tickets_of_find? hfound

theorem Restacks.handover (hrestacks : m.Restacks accepted m')
    (htop : ∀ other event next tickets below,
      m.stack ≠ .delivering other event (next :: tickets) :: below)
    (hpresent : ticket ∈ m.world.sourceTickets source) :
    Handover (owedTo source ticket m.stack) []
      (accepted.filterMap fun entry ↦ if entry.1 = source then some entry.2 else none) []
      (owedTo source ticket m'.stack) := by
  rw [owedTo_restacks hrestacks htop hpresent]
  cases hrestacks with
  | @emit _ other event =>
    by_cases hother : other = source
    · simpa [hother] using Handover.accept event
    · simpa [hother] using Handover.idle
  | _ => exact .idle

theorem owedTo_resume_delivering {other : SourceId} {event : Event α} {next : Nat}
    {tickets : List Nat} {below : List (Frame α β)} (answer : Answer α β)
    (hstack : m.stack = .delivering other event (next :: tickets) :: below) :
    owedTo source ticket (m.resume answer).stack =
      owedTo source ticket (.delivering other event tickets :: below) := by
  simp only [resume, hstack]
  split
  · rfl
  · rfl
  · rename_i view slot _
    rcases hear_stack view slot event
      { m with stack := .delivering other event tickets :: below } with heq | ⟨new, hnew, heq⟩
    · rw [heq]
    · rw [heq, owedTo_append, owedTo_work hnew]
      rfl

/-- A delivery on top reaches the listener, or another one. -/
theorem handover_delivering {other : SourceId} {event : Event α} {next : Nat}
    {tickets : List Nat} {below : List (Frame α β)} {answer : Answer α β}
    (hcontrol : m.control = .returning answer)
    (hstack : m.stack = .delivering other event (next :: tickets) :: below) (htidy : m.Tidy)
    (hpresent : (m.world.sourceListener? source ticket).isSome) :
    Handover (owedTo source ticket m.stack) (m.handed source ticket .advance) [] []
      (owedTo source ticket (m.resume answer).stack) := by
  have hdistinct : (next :: tickets).Nodup :=
    (htidy other event (next :: tickets) (hstack ▸ List.mem_cons_self)).1
  have hhanded : m.handed source ticket .advance =
      if other = source ∧ next = ticket ∧ (m.world.sourceListener? source ticket).isSome then [event]
      else [] := by
    simp only [handed, hcontrol, hstack]
  rw [owedTo_resume_delivering answer hstack, hhanded, hstack, owedTo_cons, owedTo_cons]
  by_cases hreached : other = source ∧ next = ticket
  · obtain ⟨rfl, rfl⟩ := hreached
    have hnot : next ∉ tickets := (List.nodup_cons.mp hdistinct).1
    have hlast : Frame.owed other next (.delivering other event tickets : Frame α β) = [] := by
      simp [Frame.owed, hnot]
    rw [if_pos ⟨rfl, rfl, hpresent⟩, hlast, List.nil_append]
    refine .deliver ?_
    simp [Frame.owed]
  · have hsame : Frame.owed source ticket (.delivering other event tickets : Frame α β) =
        Frame.owed source ticket (.delivering other event (next :: tickets) : Frame α β) := by
      by_cases hother : other = source
      · have hnext : ticket ≠ next := fun heq ↦ hreached ⟨hother, heq.symm⟩
        simp [Frame.owed, hother, hnext]
      · simp [Frame.owed, hother]
    rw [if_neg fun h ↦ hreached ⟨h.1, h.2.1⟩, hsame]
    exact .idle

/-- Assumes: a ticket that has been given out, whose listener is there. -/
theorem handover_request (request : Request α β) (hwired : m.Wired) (hseated : m.Seated)
    (hgiven : m.world.Given source ticket) (hpresent : ticket ∈ m.world.sourceTickets source) :
    Handover (owedTo source ticket m.stack) (m.handed source ticket (.request request))
      (acceptedBy source (m.notices (.request request))) []
      (owedTo source ticket (m.move (.request request)).stack) := by
  rw [handed_request request hgiven]
  by_cases huser : m.hasUser
  case neg =>
    have hsame : m.move (.request request) = m ∧ m.notices (.request request) = [] := by
      simp only [Machine.move, submit, notices]
      cases hcontrol : m.control with
      | user heard => simp [hasUser, hcontrol] at huser
      | _ => exact ⟨rfl, rfl⟩
    rw [hsame.1, hsame.2]
    exact .idle
  by_cases hticks : m.opens (.request request) ∨ m.closes (.request request)
  · obtain ⟨hnotices, -, hstack⟩ := ticks_move hticks
    have howed : owedTo source ticket (m.move (.request request)).stack =
        owedTo source ticket m.stack := by
      rcases hstack with hsame | ⟨views, hdraining⟩
      · rw [hsame]
      · rw [hdraining]
        rfl
    rw [hnotices, howed]
    exact .idle
  · refine (restacks_move (.request request) hwired hticks).handover ?_ hpresent
    intro other event next tickets below hstack
    rcases hseated huser with hnone | ⟨call, turn, rest, hcalling⟩
    · simp [hnone] at hstack
    · simp [hcalling] at hstack

/-- A delivery that is given up is lost to those whom it has not reached. Assumes: the listener is
there. -/
theorem handover_unwinding {message : String} (hwired : m.Wired)
    (hcontrol : m.control = .unwinding message)
    (hpresent : ticket ∈ m.world.sourceTickets source) :
    Handover (owedTo source ticket m.stack) [] [] (owedTo source ticket m.stack.head?.toList)
      (owedTo source ticket (m.move .advance).stack) := by
  by_cases htop : ∀ other event next tickets below,
      m.stack ≠ .delivering other event (next :: tickets) :: below
  · have hnone : owedTo source ticket m.stack.head?.toList = [] := by
      cases hstack : m.stack with
      | nil => rfl
      | cons frame below =>
        cases frame with
        | delivering other event tickets =>
          cases tickets with
          | nil => simp [owedTo, Frame.owed]
          | cons next rest => exact absurd hstack (htop other event next rest below)
        | _ => rfl
    have hsilent : m.notices .advance = [] := by simp only [notices, hcontrol]
    have hrestacks := restacks_move .advance hwired (by simp [opens, closes])
    rw [hsilent] at hrestacks
    rw [hnone]
    exact hrestacks.handover htop hpresent
  · push Not at htop
    obtain ⟨other, event, next, tickets, below, hstack⟩ := htop
    have hleft : (m.move .advance).stack = below := by
      simp only [Machine.move, advance, hcontrol, giveUp, hstack]
    rw [hleft, hstack, List.head?_cons, Option.toList_some, owedTo_singleton, owedTo_cons]
    by_cases howes : other = source ∧ ticket ∈ next :: tickets
    · rw [Frame.owed, if_pos howes]
      exact .lose rfl
    · rw [Frame.owed, if_neg howes]
      exact .idle

/-- Assumes: a ticket that has been given out, whose listener is still there after the move. -/
theorem handover_move (move : Move α β) (hwired : m.Wired) (hseated : m.Seated) (htidy : m.Tidy)
    (hgiven : m.world.Given source ticket)
    (hpresent : ((m.move move).world.sourceListener? source ticket).isSome) :
    Handover (owedTo source ticket m.stack) (m.handed source ticket move)
      (acceptedBy source (m.notices move)) (m.lost source ticket move)
      (owedTo source ticket (m.move move).stack) := by
  have hbefore : (m.world.sourceListener? source ticket).isSome := by
    rcases ((changes_move move m).given hgiven).2 with hsame | hnone
    · rwa [← hsame]
    · rw [hnone] at hpresent
      contradiction
  have htickets := mem_sourceTickets_of_listener hbefore
  cases move with
  | request request => exact handover_request request hwired hseated hgiven htickets
  | advance =>
    cases hcontrol : m.control with
    | user heard =>
      have hidle : m.handed source ticket .advance = [] ∧ m.notices .advance = [] ∧
          m.lost source ticket .advance = [] ∧ m.move .advance = m := by
        simp only [handed, notices, lost, Machine.move, advance, hcontrol, and_self]
      rw [hidle.1, hidle.2.1, hidle.2.2.1, hidle.2.2.2]
      exact .idle
    | unwinding message =>
      have hsilent : m.handed source ticket .advance = [] ∧ m.notices .advance = [] := by
        simp only [handed, notices, hcontrol, and_self]
      have hlost : m.lost source ticket .advance = owedTo source ticket m.stack.head?.toList := by
        simp only [lost, hcontrol]
      rw [hsilent.1, hsilent.2, hlost]
      exact handover_unwinding hwired hcontrol htickets
    | returning answer =>
      have hlost : m.lost source ticket .advance = [] := by simp only [lost, hcontrol]
      rw [hlost]
      by_cases htop : ∀ other event next tickets below,
          m.stack ≠ .delivering other event (next :: tickets) :: below
      · rw [handed_advance hgiven htop]
        refine (restacks_move .advance hwired ?_).handover htop htickets
        simp [opens, closes]
      · push Not at htop
        obtain ⟨other, event, next, tickets, below, hstack⟩ := htop
        have hnotices : acceptedBy source (m.notices .advance) = [] := by
          simp only [notices, hcontrol, resumeNotices, hstack, acceptedBy]
          split
          · rw [acceptedIn_hearNotices, List.filterMap_nil]
          · rfl
        rw [hnotices, Machine.move, advance, hcontrol]
        exact handover_delivering hcontrol hstack htidy hbefore

/-! ### What a listener receives in a run -/

/-- What deliveries and their listeners rest on. It holds from the start of every run. -/
structure Delivers (m : Machine α β) : Prop where
  wired : m.Wired
  seated : m.Seated
  ordered : m.world.Ordered
  tidy : m.Tidy

theorem Delivers.start : Delivers ({} : Machine α β) where
  wired := .start
  seated _ := .inl rfl
  ordered source s hs := by simp at hs
  tidy source event tickets hmem := by simp at hmem

theorem Delivers.move (move : Move α β) (h : m.Delivers) : (m.move move).Delivers where
  wired := wired_move move h.wired
  seated := seated_move move h.seated
  ordered := (changes_move move m).preserves (fun _ _ hordered hchange ↦ hchange.ordered hordered)
    h.ordered
  tidy := tidy_move move h.wired h.ordered h.tidy

theorem Delivers.run (moves : List (Move α β)) (h : m.Delivers) : (m.run moves).Delivers :=
  run_preserves (fun _ move h ↦ h.move move) h moves

/-- A listener that is gone stays gone. -/
theorem listener_of_run {moves : List (Move α β)} (hgiven : m.world.Given source ticket)
    (h : ((m.run moves).world.sourceListener? source ticket).isSome) :
    (m.world.sourceListener? source ticket).isSome := by
  induction moves generalizing m with
  | nil => exact h
  | cons move rest ih =>
    obtain ⟨hgiven', hlistener⟩ := (changes_move move m).given hgiven
    rcases hlistener with hsame | hnone
    · exact hsame ▸ ih hgiven' h
    · have hthere := ih hgiven' h
      rw [hnone] at hthere
      contradiction

theorem lost_of_raiseFree {move : Move α β} (hcalm : m.isUnwinding = false) :
    m.lost source ticket move = [] := by
  unfold lost
  split
  case h_1 hcontrol => simp [isUnwinding, hcontrol] at hcalm
  case h_2 => rfl

theorem acceptedBy_append (first last : List (Notice α β)) :
    acceptedBy source (first ++ last) = acceptedBy source first ++ acceptedBy source last := by
  simp only [acceptedBy, acceptedIn, List.filterMap_append]

/-- What is received and owed after a run, when what is due before it is accounted for. Assumes: a
listener that is still there after the run. -/
theorem Delivers.received_run {moves : List (Move α β)} {received due : List (Event α)}
    (h : m.Delivers) (hgiven : m.world.Given source ticket)
    (hpresent : ((m.run moves).world.sourceListener? source ticket).isSome)
    (hsub : (received ++ owedTo source ticket m.stack).Subperm due) :
    let got := received ++ receivedBy source ticket moves m ++
      owedTo source ticket (m.run moves).stack
    let due' := due ++ acceptedBy source (m.history moves)
    got.Subperm due' ∧
      (m.isUnwinding = false → Along RaiseFree moves m →
        (received ++ owedTo source ticket m.stack).length = due.length → got.length = due'.length) ∧
      (received ++ owedTo source ticket m.stack = due → Along (InTurn source ticket) moves m →
        got = due') ∧
      (Overtaken due (received ++ owedTo source ticket m.stack) ∨
        ¬Along (InTurn source ticket) moves m → Overtaken due' got) := by
  induction moves generalizing m received due with
  | nil =>
    simp only [receivedBy, history, run_nil, acceptedBy, acceptedIn, List.filterMap_nil,
      List.append_nil]
    refine ⟨hsub, fun _ _ ↦ id, fun heq _ ↦ heq, fun hover ↦ hover.resolve_right ?_⟩
    exact fun hnot ↦ hnot trivial
  | cons move rest ih =>
    have hgiven' := ((changes_move move m).given hgiven).1
    have hhandover := handover_move move h.wired h.seated h.tidy hgiven
      (listener_of_run hgiven' hpresent)
    have hsub' := hhandover.subperm hsub
    obtain ⟨hrest, hlength, hequal, hovertaken⟩ := ih (h.move move) hgiven' hpresent hsub'
    simp only [receivedBy, history, acceptedBy_append, run_cons, ← List.append_assoc]
    refine ⟨hrest, fun hcalm hfree hbefore ↦ ?_, fun hbefore hturn ↦ ?_, fun hover ↦ ?_⟩
    · exact hlength hfree.1.2 hfree.2 (hhandover.length_eq (lost_of_raiseFree hcalm) hbefore)
    · exact hequal (hhandover.eq_of_inTurn hturn.1.1 hturn.1.2 hbefore) hturn.2
    · refine hovertaken ?_
      rcases hover with hbefore | hnot
      · exact .inl (hhandover.overtaken hbefore hsub)
      · by_cases hturn : m.InTurn source ticket move
        · exact .inr fun hrest ↦ hnot ⟨hturn, hrest⟩
        · exact .inl (hhandover.overtaken_of_not_inTurn hturn hsub)

/-! ### The current event -/

theorem current_publish {other : SourceId} {s : Source α} (event : Event α)
    (hs : m.world.sources[other]? = some s) (source : SourceId) :
    (publish other event m.world).scene.current source =
      if other = source then event else m.world.scene.current source := by
  have hchanged : (publish other event m.world).scene =
      (m.world.openTick.scene.modifySource other fun s ↦ { s with current := event }) := rfl
  rw [hchanged]
  by_cases hother : other = source
  · subst hother
    simp [Scene.current, Scene.modifySource, World.scene, World.openTick, hs]
  · rw [if_neg hother]
    exact Scene.current_modifySource_of_ne _ hother

theorem Restacks.current (hrestacks : m.Restacks accepted m') (source : SourceId) :
    m'.world.scene.current source =
      (accepted.filterMap fun entry ↦ if entry.1 = source then some entry.2 else none).getLastD
        (m.world.scene.current source) := by
  have hclosed := m.world.current_closeTick source
  cases hrestacks with
  | @emit _ other event _ _ _ _ hthere hgone hkept hstack hstack' hworld =>
    obtain ⟨s, hs⟩ := hthere
    rw [hworld, current_publish event hs]
    by_cases hother : other = source <;> simp [hother]
  | ended hstack hworld =>
    rw [hworld]
    rfl
  | build hstack' hunmoved => exact hunmoved.current source
  | close hstack hstack' hviews hunmoved => exact (hunmoved.current source).trans hclosed
  | abandoned hunwinding hstack hunmoved => exact (hunmoved.current source).trans hclosed
  | swap _ _ _ _ hunmoved | call _ _ hunmoved | drop _ _ _ hunmoved | proceed _ _ _ _ hunmoved
  | fail _ _ hunmoved | work _ _ _ _ hunmoved | connected _ _ _ _ hunmoved =>
    exact hunmoved.current source

theorem current_move (move : Move α β) (hwired : m.Wired) (source : SourceId) :
    (m.move move).world.scene.current source =
      (acceptedBy source (m.notices move)).getLastD (m.world.scene.current source) := by
  by_cases hticks : m.opens move ∨ m.closes move
  · obtain ⟨hnotices, hcurrent, -⟩ := ticks_move hticks
    rw [hnotices, hcurrent]
    rfl
  · exact (restacks_move move hwired hticks).current source

theorem Delivers.current_run {moves : List (Move α β)} (h : m.Delivers) (source : SourceId) :
    (m.run moves).world.scene.current source =
      (acceptedBy source (m.history moves)).getLastD (m.world.scene.current source) := by
  induction moves generalizing m with
  | nil => rfl
  | cons move rest ih =>
    rw [run_cons, ih (h.move move), current_move move h.wired, history, acceptedBy_append]
    simp only [List.getLastD_eq_getLast?, List.getLast?_append]
    cases (acceptedBy source ((m.move move).history rest)).getLast? <;> rfl

/-! ### From registration to rest -/

/-- The next listener of a source is owed nothing yet. -/
theorem Tidy.owedTo_next {s : Source α} (h : m.Tidy) (hs : m.world.sources[source]? = some s) :
    owedTo source s.listeners.next m.stack = [] := by
  refine List.flatMap_eq_nil_iff.mpr fun frame hframe ↦ ?_
  cases frame with
  | delivering other event tickets =>
    refine if_neg ?_
    rintro ⟨rfl, hmem⟩
    obtain ⟨s', hs', hgiven⟩ := (h other event tickets hframe).2 _ hmem
    obtain rfl := Option.some.inj (hs.symm.trans hs')
    exact Nat.lt_irrefl _ hgiven
  | _ => rfl

theorem given_registerAtSource {world : World α β} {s : Source α} (listener : Listener)
    (hs : world.sources[source]? = some s) :
    (world.registerAtSource source listener).Given source s.listeners.next :=
  ⟨{ s with listeners := s.listeners.register listener },
    by simp [World.registerAtSource, World.modifySource, hs], Nat.lt_succ_self _⟩

/-- What is due to a listener when it registers. -/
theorem Delivers.registers {s : Source α} {first : Move α β} (h : m.Delivers)
    (hs : m.world.sources[source]? = some s) (hfirst : m.Registers source first) :
    (m.move first).world.Given source s.listeners.next ∧
      m.handed source s.listeners.next first = [s.current] ∧
      acceptedBy source (m.notices first) = [] ∧ m.lost source s.listeners.next first = [] ∧
      owedTo source s.listeners.next (m.move first).stack = [] := by
  have howed := h.tidy.owedTo_next hs
  have hgreeting : m.greeting source s.listeners.next = [s.current] := by simp [greeting, hs]
  cases first with
  | request request =>
    obtain ⟨other, key, rfl⟩ : ∃ other key, request = .subscribe (.source other) key := by
      unfold Registers at hfirst
      split at hfirst
      case h_1 other key heq => exact ⟨other, key, Move.request.inj heq⟩
      case h_2 heq => contradiction
      case h_3 => contradiction
    obtain ⟨huser, rfl⟩ := hfirst
    have hserved : m.serve (.subscribe (.source other) key) =
        ((m.withWorld (.registerAtSource other (.callback key))).push
          (.subscribing (.source other) s.listeners.next)).call (.sourceEvent key s.current) := by
      simp only [serve, subscribe, hs]
    refine ⟨?_, ?_, ?_, rfl, ?_⟩
    · rw [Machine.move, submit_eq_serve huser, hserved]
      exact given_registerAtSource _ hs
    · obtain ⟨heard, hcontrol⟩ := exists_heard huser
      simp only [handed, hcontrol, hgreeting, if_true]
    · rw [notices_request huser]
      rfl
    · rw [Machine.move, submit_eq_serve huser, hserved]
      exact howed
  | advance =>
    obtain ⟨answer, view, slot, inputs, below, hcontrol, hstack⟩ := hfirst
    let m' : Machine α β := ({ m with stack := .connecting view inputs :: below }.withWorld
      (.registerAtSource source (.input view slot))).withWorld
        (.modifyView view fun v ↦ { v with inputs := v.inputs ++ [(source, s.listeners.next)] })
    have hmoved : m.move .advance = m'.hear view slot s.current := by
      simp only [Machine.move, advance, hcontrol, resume, hstack, connect, hs]
      rfl
    have howed' : owedTo source s.listeners.next m'.stack = [] := by
      rw [hstack] at howed
      exact howed
    refine ⟨?_, ?_, ?_, ?_, ?_⟩
    · have hgiven : m'.world.Given source s.listeners.next := given_registerAtSource _ hs
      have hchanges : World.Changes (fun _ ↦ True) m'.world (m'.hear view slot s.current).world :=
        changes_hear view slot s.current m'
      exact hmoved ▸ (hchanges.given hgiven).1
    · simp only [handed, hcontrol, hstack, hgreeting, if_true]
    · simp only [notices, hcontrol, resumeNotices, hstack, hs, acceptedBy, acceptedIn_hearNotices,
        List.filterMap_nil]
    · simp only [lost, hcontrol]
    · rw [hmoved]
      rcases hear_stack view slot s.current m' with hsame | ⟨new, hnew, hworks⟩
      · rw [hsame]
        exact howed'
      · rw [hworks, owedTo_append, owedTo_work hnew]
        exact howed'

theorem current_of_source {s : Source α} (hs : m.world.sources[source]? = some s) :
    m.world.scene.current source = s.current := by
  show Option.getD (m.world.sources[source]?.map (·.current)) .pending = s.current
  rw [hs]
  rfl

/-- At rest, a listener that is still active has received the event that was current when it
registered and each event that was accepted since, if nothing raised. It has received them in the
order of acceptance, the current event last, if nothing was accepted out of turn, and only then if
no two of these events are the same. -/
theorem received_of_atRest (before after : List (Move α β)) (first : Move α β) (source : SourceId)
    {s₀ s : Source α} (hs₀ : (run before {}).world.sources[source]? = some s₀)
    (hfirst : (run before {}).Registers source first)
    (hrest : (run (before ++ first :: after) {}).AtRest)
    (hs : (run (before ++ first :: after) {}).world.sources[source]? = some s)
    (hactive : s₀.listeners.next ∈ s.listeners.tickets) :
    let since := first :: after
    let start := run before ({} : Machine α β)
    let received := receivedBy source s₀.listeners.next since start
    let due := s₀.current :: acceptedBy source (start.history since)
    (Along RaiseFree since start → received.Perm due) ∧
      (Along (InTurn source s₀.listeners.next) since start →
        received = due ∧ received.getLast? = some s.current) ∧
      (due.Nodup → (received = due ↔ Along (InTurn source s₀.listeners.next) since start)) := by
  intro since start received due
  have hstart : start.Delivers := Delivers.start.run before
  obtain ⟨hgiven, hhanded, haccepted, hlost, howed⟩ := hstart.registers hs₀ hfirst
  rw [run_append, run_cons] at hrest hs
  have hpresent : (((start.move first).run after).world.sourceListener? source
      s₀.listeners.next).isSome := by
    rw [World.sourceListener?, hs]
    exact Registry.find?_isSome_of_mem_tickets hactive
  have hnothing : owedTo source s₀.listeners.next ((start.move first).run after).stack = [] := by
    rw [hrest.1]
    rfl
  have hregistered : [s₀.current] ++ owedTo source s₀.listeners.next (start.move first).stack =
      [s₀.current] := by rw [howed, List.append_nil]
  have hinTurn : start.InTurn source s₀.listeners.next first := ⟨.inl haccepted, hlost⟩
  obtain ⟨hsub, hlength, hequal, hovertaken⟩ := (hstart.move first).received_run hgiven hpresent
    (by rw [hregistered] : List.Subperm _ [s₀.current])
  have hreceived : received = [s₀.current] ++
      receivedBy source s₀.listeners.next after (start.move first) := by
    show start.handed _ _ _ ++ _ = _
    rw [hhanded]
  have hdue : due = [s₀.current] ++ acceptedBy source ((start.move first).history after) := by
    show s₀.current :: acceptedBy source (start.notices first ++ _) = _
    rw [acceptedBy_append, haccepted]
    rfl
  rw [hnothing, List.append_nil, ← hreceived, ← hdue] at hsub hlength hequal hovertaken
  have hlast : due.getLast? = some s.current := by
    have hfirst' := current_move first hstart.wired source
    rw [haccepted, current_of_source hs₀, List.getLastD_nil] at hfirst'
    have hcurrent : ((start.move first).run after).world.scene.current source = _ :=
      (hstart.move first).current_run source
    rw [current_of_source hs, hfirst', List.getLastD_eq_getLast?] at hcurrent
    rw [hdue, hcurrent, List.getLast?_append, List.getLast?_singleton]
    cases (acceptedBy source ((start.move first).history after)).getLast? <;> rfl
  refine ⟨fun hfree ↦ ?_, fun hturn ↦ ?_, fun hdistinct ↦ ⟨fun heq ↦ ?_, fun hturn ↦ ?_⟩⟩
  · exact hsub.perm_of_length_le (Nat.le_of_eq
      (hlength hfree.1.2 hfree.2 (congrArg List.length hregistered)).symm)
  · obtain heq := hequal hregistered hturn.2
    exact ⟨heq, heq ▸ hlast⟩
  · by_contra hnot
    exact (hovertaken (.inr fun hturn ↦ hnot ⟨hinTurn, hturn⟩)).ne hdistinct heq
  · exact hequal hregistered hturn.2

/-- A source that one callback hears. -/
def heardByOne : List (Move Nat Nat) :=
  Move.script 4 [.newSource "a", .subscribe (.source 0) 7, .finish]

/-- The second callback that hears the source answers the first event, which has reached both. -/
def answeredLast : List (Move Nat Nat) :=
  Move.script 8 [.finish, .emit 0 (.loaded 1), .finish, .emit 0 (.loaded 2), .finish, .finish,
    .finish]

set_option maxRecDepth 2000 in
theorem received_answeredLast :
    receivedBy 0 1 (.request (.subscribe (.source 0) 8) :: answeredLast) (run heardByOne {}) =
      [.pending, .loaded 1, .loaded 2] := by
  have hs₀ : (run heardByOne {}).world.sources[0]? = some
      { name := "a", listeners := { next := 1, entries := [(0, .callback 7)] } } := by cbv
  have hs : (run (heardByOne ++ .request (.subscribe (.source 0) 8) :: answeredLast)
      {}).world.sources[0]? = some
        { name := "a", current := .loaded 2
          listeners := { next := 2, entries := [(0, .callback 7), (1, .callback 8)] } } := by cbv
  obtain ⟨-, hinTurn, -⟩ := received_of_atRest heardByOne answeredLast
    (.request (.subscribe (.source 0) 8)) 0 hs₀ ⟨by decide +kernel, rfl⟩ (by decide +kernel) hs
    (by decide)
  exact (hinTurn (by decide +kernel)).1.trans (by decide +kernel)

/-- The first callback that hears the source answers the first event, which has not reached the
second one. -/
def answeredFirst : List (Move Nat Nat) :=
  Move.script 8 [.finish, .emit 0 (.loaded 1), .emit 0 (.loaded 2), .finish, .finish, .finish,
    .finish]

set_option maxRecDepth 2000 in
theorem received_answeredFirst :
    let since := .request (.subscribe (.source 0) 8) :: answeredFirst
    Along RaiseFree (heardByOne ++ since) {} ∧ (run (heardByOne ++ since) {}).AtRest ∧
      (run (heardByOne ++ since) {}).world.sourceListener? 0 1 = some (.callback 8) ∧
      acceptedBy 0 ((run heardByOne {}).history since) = [.loaded 1, .loaded 2] ∧
      receivedBy 0 1 since (run heardByOne {}) = [.pending, .loaded 2, .loaded 1] := by
  decide +kernel

end Machine

end LiveRecord.Flow
