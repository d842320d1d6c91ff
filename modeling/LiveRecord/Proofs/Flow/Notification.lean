import LiveRecord.Proofs.Flow.Restacking
import LiveRecord.Proofs.Flow.Subscription

/-!
# Who is called by one notification

A notification goes to the listeners of a source or of a view, one after the other, while they may
subscribe others, cancel subscriptions, dispose of views and notify the same listeners again. A
round is one pass, from the move in which it begins to the one in which it ends. In a round everybody
is called who was registered when it began and has not gone before its turn, once each and in the
order of registration, and nobody else is (`Round.called_eq`).

A pass lies on the frames that were there when it began, and they tell it from the passes that its
callbacks start. In each move it waits, takes a turn, ends or is given up (`Machine.tours_move`), and
whom it is still to call is what its first turns leave over (`Machine.called_run`).
`called_by_notification` adds why registrations go, and what handles have to do with it.
-/

set_option autoImplicit false

namespace LiveRecord.Flow

variable {α β : Type}

/-- An event on its way to the listeners of a source or of a view. -/
inductive Notification (α β : Type)
  | ofSource (source : SourceId) (event : Event α)
  | ofView (view : ViewId) (event : ViewEvent β)

namespace Notification

def target : Notification α β → Target
  | ofSource source _ => .source source
  | ofView view _ => .view view

def call (key : Nat) : Notification α β → Call α β
  | ofSource _ event => .sourceEvent key event
  | ofView _ event => .viewEvent key event

/-- The frame of a pass in which these tickets are left. -/
def pass (tickets : List Nat) : Notification α β → Frame α β
  | ofSource source event => .delivering source event tickets
  | ofView view event => .announcing view event tickets

end Notification

namespace Frame

def passes : Frame α β → Bool
  | delivering _ _ _ | announcing _ _ _ => true
  | _ => false

/-- The registration whose turn is next in a pass. -/
def next? : Frame α β → Option (Target × Nat)
  | delivering source _ (ticket :: _) => some (.source source, ticket)
  | announcing view _ (ticket :: _) => some (.view view, ticket)
  | _ => none

variable (notification : Notification α β) (tickets : List Nat)

@[simp] theorem passes_pass : (notification.pass tickets).passes = true := by
  cases notification <;> rfl

@[simp] theorem hands_pass : (notification.pass tickets).hands = false := by
  cases notification <;> rfl

@[simp] theorem next?_pass_nil : (notification.pass []).next? = none := by
  cases notification <;> rfl

@[simp] theorem next?_pass_cons (ticket : Nat) :
    (notification.pass (ticket :: tickets)).next? = some (notification.target, ticket) := by
  cases notification <;> rfl

end Frame

theorem Notification.pass_inj {notification other : Notification α β} {tickets others : List Nat}
    (h : notification.pass tickets = other.pass others) :
    notification = other ∧ tickets = others := by
  cases notification <;> cases other <;> simp [pass] at h <;> simp [h]

namespace Machine

variable {m m' : Machine α β} {notification : Notification α β} {below : List (Frame α β)}

/-! ### How a round begins -/

/-- No frame more than that is on the stack, or the frame on top is no pass, or it is a pass that is
to go to everybody who is registered. -/
inductive Tops (height : Nat) (m : Machine α β) : Prop
  | low (h : m.stack.length ≤ height)
  | other {frame : Frame α β} {below : List (Frame α β)} (hstack : m.stack = frame :: below)
      (hframe : frame.passes = false)
  | pass {notification : Notification α β} {below : List (Frame α β)}
      (hstack : m.stack =
        notification.pass (m.world.registry notification.target).tickets :: below)

theorem Tops.returning {height : Nat} (h : m.Tops height) (answer : Answer α β) :
    (m.returning answer).Tops height := by
  cases h with
  | low h => exact .low h
  | other hstack hframe => exact .other hstack hframe
  | pass hstack => exact .pass hstack

theorem Tops.of_delivering {height : Nat} {source : SourceId} {event : Event α}
    (hstack : m.stack = .delivering source event (m.world.sourceTickets source) :: below) :
    m.Tops height := by
  rw [← World.tickets_registry_source] at hstack
  exact @Tops.pass α β height m (.ofSource source event) below hstack

theorem Tops.of_announcing {height : Nat} {view : ViewId} {event : ViewEvent β}
    (hstack : m.stack = .announcing view event (m.world.viewTickets view) :: below) :
    m.Tops height := by
  rw [← World.tickets_registry_view] at hstack
  exact @Tops.pass α β height m (.ofView view event) below hstack

theorem TakesUp.tops {height : Nat} {view : ViewId} (h : m.TakesUp view m')
    (hlow : m.stack.length ≤ height) : m'.Tops height := by
  rcases h with hsame | ⟨errors, hfailing⟩
  · exact .low (hsame ▸ hlow)
  · exact .other hfailing rfl

/-- Assumes: a view is held on top before its news is taken up. -/
theorem TakesUp.tops_of_held {height : Nat} {view : ViewId} (h : m.TakesUp view m')
    (hheld : m.stack = .holding view :: below) : m'.Tops height := by
  rcases h with hsame | ⟨errors, hfailing⟩
  · exact .other (hsame.trans hheld) rfl
  · exact .other hfailing rfl

theorem tops_hear {height : Nat} (view : ViewId) (slot : Nat) (event : Event α)
    (hlow : m.stack.length ≤ height) : (m.hear view slot event).Tops height := by
  have hhears := m.hears view slot event
  generalize m.hear view slot event = m' at hhears ⊢
  cases hhears with
  | deaf => exact .low hlow
  | lent | quiet => exact .other rfl rfl
  | loaded => exact (takesUp_requestCompose view _).tops_of_held rfl
  | failed => exact (takesUp_flush view _).tops_of_held rfl

theorem tops_runDeferred {height : Nat} (view : ViewId) (hlow : m.stack.length ≤ height) :
    (m.runDeferred view).Tops height := by
  unfold runDeferred
  split
  · exact .low hlow
  · exact (takesUp_flush view _).tops_of_held rfl

theorem tops_becomeReady {height : Nat} (view : ViewId) (value : β) :
    (m.becomeReady view value).Tops height := .of_announcing rfl

theorem tops_composeIfDue {height : Nat} (view : ViewId) (hlow : m.stack.length ≤ height) :
    (m.composeIfDue view).Tops height := by
  unfold composeIfDue
  split
  · exact .low hlow
  · split
    · dsimp only
      split
      · exact (takesUp_settle view _).tops hlow
      · exact tops_becomeReady view _
      · exact .other rfl rfl
    · exact (takesUp_settle view m).tops hlow

theorem tops_emit {height : Nat} (source : SourceId) (event : Event α) (h : m.Tops height) :
    (m.emit source event).Tops height := by
  unfold emit
  split
  · exact h.returning _
  · split
    · exact h.returning _
    · exact .of_delivering rfl

theorem tops_feed {height : Nat} (feed : Feed α) (hlow : m.stack.length ≤ height) :
    (m.feed feed).Tops height := by
  unfold Machine.feed
  split
  · exact .low hlow
  · exact tops_emit _ _ (.other rfl rfl)

theorem tops_serve (request : Request α β) : (m.serve request).Tops m.stack.length := by
  have hlow : m.stack.length ≤ m.stack.length := Nat.le_refl _
  cases request with
  | emit source event => exact tops_emit source event (.low hlow)
  | build sources composer =>
    simp only [serve, build]
    split
    · exact .low hlow
    · exact .other rfl rfl
  | subscribe target key =>
    have hsubscribes := m.subscribes target key
    show (m.subscribe target key).Tops _
    generalize m.subscribe target key = m' at hsubscribes ⊢
    cases hsubscribes with
    | unknown => exact .low hlow
    | source | silent | view => exact .other rfl rfl
  | cancel handle owned =>
    exact .low (Nat.le_of_eq (congrArg _ (serve_cancel_stack handle owned m)))
  | dropView view => exact .low (Nat.le_of_eq (congrArg _ (release_stack view _)))
  | leaveTick => exact .other rfl rfl
  | poll feed => exact tops_feed feed hlow
  | finish | compose value | raise message =>
    simp only [serve]
    split <;> refine .low ?_ <;> simp [*]
  | _ => exact .low hlow

theorem tops_resume (answer : Answer α β) : (m.resume answer).Tops m.stack.length := by
  have hpopped {frame : Frame α β} {below : List (Frame α β)} (hstack : m.stack = frame :: below) :
      below.length ≤ m.stack.length := by simp [hstack]
  have hsame {frame next : Frame α β} {below : List (Frame α β)}
      (hstack : m.stack = frame :: below) : (next :: below).length ≤ m.stack.length := by
    simp [hstack]
  have hresumes := m.resumes answer
  generalize m.resume answer = m' at hresumes ⊢
  cases hresumes with
  | rest hstack | calling hstack => exact .low (Nat.le_refl _)
  | closing hstack | callListener hstack | callViewer hstack => exact .other rfl rfl
  | drain hstack => exact tops_runDeferred _ (hsame hstack)
  | drained hstack | delivered hstack | announced hstack | subscribed hstack | built hstack
  | fed hstack => exact .low (hpopped hstack)
  | skipDelivery hstack | skipAnnouncement hstack => exact .low (hsame hstack)
  | hear hstack => exact tops_hear _ _ _ (hsame hstack)
  | fail hstack => exact .of_announcing rfl
  | compose hstack => exact tops_composeIfDue _ (hpopped hstack)
  | composed hstack => exact tops_becomeReady _ _
  | notComposed hstack | settle hstack => exact (takesUp_settle _ _).tops (hpopped hstack)
  | release hstack | subscribedView hstack =>
    exact .low ((congrArg _ (release_stack _ _)).trans_le (hpopped hstack))
  | connect hstack =>
    simp only [connect]
    split
    · exact .low (hsame hstack)
    · exact tops_hear _ _ _ (hsame hstack)
  | connected hstack => exact (takesUp_requestCompose _ _).tops (hpopped hstack)
  | feed hstack => exact tops_feed _ (hpopped hstack)

theorem tops_giveUp (message : String) : (m.giveUp message).Tops m.stack.length := by
  refine .low ?_
  have hgivesUp := m.givesUp message
  generalize m.giveUp message = m' at hgivesUp ⊢
  cases hgivesUp with
  | rest | calling => exact Nat.le_refl _
  | closing hstack | draining hstack | composing hstack | subscribing hstack | pop hstack =>
    simp [hstack, withWorld]
  | holding hstack | building hstack | subscribingView hstack =>
    simp [hstack, withWorld, release_stack]

theorem tops_move (move : Move α β) (m : Machine α β) : (m.move move).Tops m.stack.length :=
  move_of (motive := (Tops m.stack.length)) move (.low (Nat.le_refl _))
    (fun request _ _ ↦ tops_serve request) (fun answer _ _ ↦ tops_resume answer)
    (fun message _ _ ↦ tops_giveUp message)

/-- A pass that is new goes to everybody who is registered. -/
theorem tickets_of_begins {move : Move α β} {tickets : List Nat}
    (hbegins : m.stack.length < (m.move move).stack.length)
    (hstack : (m.move move).stack = notification.pass tickets :: below) :
    tickets = ((m.move move).world.registry notification.target).tickets := by
  cases tops_move move m with
  | low h => exact absurd hbegins (Nat.not_lt_of_le h)
  | other htop hframe =>
    rw [hstack] at htop
    rw [← (List.cons.inj htop).1, Frame.passes_pass] at hframe
    contradiction
  | pass htop =>
    rw [hstack] at htop
    obtain ⟨rfl, htickets⟩ := Notification.pass_inj (List.cons.inj htop).1
    exact htickets

/-! ### How a round goes on -/

/-- What a pass does with whom it finds under the ticket whose turn it is. -/
def inform (notification : Notification α β) (ticket : Nat) (m : Machine α β) : Machine α β :=
  match (m.world.registry notification.target).find? ticket, notification with
  | none, _ => m.returning .done
  | some (.callback key), _ => m.call (notification.call key) (some (notification.target, ticket))
  | some (.input view slot), .ofSource _ event => m.hear view slot event
  -- no view listens to another one
  | some (.input _ _), .ofView _ _ => m.returning .done

theorem stack_inform (notification : Notification α β) (ticket : Nat) (m : Machine α β) :
    ∃ above, (m.inform notification ticket).stack = above ++ m.stack := by
  unfold inform
  split
  · exact ⟨[], rfl⟩
  · exact ⟨[_], rfl⟩
  case h_3 view slot source event _ =>
    rcases hear_stack view slot event m with hsame | ⟨new, -, hnew⟩
    · exact ⟨[], hsame⟩
    · exact ⟨new ++ [.holding view], by simp [hnew]⟩
  · exact ⟨[], rfl⟩

theorem resume_pass {ticket : Nat} {tickets : List Nat} (answer : Answer α β)
    (hstack : m.stack = notification.pass (ticket :: tickets) :: below) :
    m.resume answer = ({ m with stack := notification.pass tickets :: below } : Machine α β).inform
      notification ticket := by
  cases notification with
  | ofSource source event =>
    simp only [inform, resume, hstack, Notification.pass, Notification.target,
      World.find?_registry_source]
    cases m.world.sourceListener? source ticket with
    | none => rfl
    | some listener => cases listener <;> rfl
  | ofView view event =>
    simp only [inform, resume, hstack, Notification.pass, Notification.target,
      World.find?_registry_view]
    cases m.world.viewListener? view ticket <;> rfl

/-- The registration whose turn it is in a move, in the pass that lies on so many frames. -/
def turn? (height : Nat) (move : Move α β) (m : Machine α β) : Option (Target × Nat) :=
  match move, m.control, m.stack with
  | .advance, .returning _, frame :: below =>
    if below.length = height then frame.next? else none
  | _, _, _ => none

theorem turn?_of_height {height : Nat} {frame : Frame α β} (move : Move α β)
    (hstack : m.stack = frame :: below) (hheight : below.length ≠ height) :
    m.turn? height move = none := by
  unfold turn?
  split
  case h_1 top rest _ htop =>
    rw [hstack] at htop
    obtain ⟨-, rfl⟩ := List.cons.inj htop
    exact if_neg hheight
  case h_2 => rfl

theorem turn?_of_returning {answer : Answer α β} {frame : Frame α β}
    (hcontrol : m.control = .returning answer) (hstack : m.stack = frame :: below) :
    m.turn? below.length .advance = frame.next? := by
  simp [turn?, hcontrol, hstack]

/-- What becomes of a pass in a move: it waits, takes a turn, ends, or is given up. -/
inductive Tours (notification : Notification α β) (below : List (Frame α β)) (left : List Nat)
    (move : Move α β) (m : Machine α β) : Prop
  | waits (hturn : m.turn? below.length move = none) {above : List (Frame α β)}
      (hstack' : (m.move move).stack = above ++ notification.pass left :: below)
  | turns {ticket : Nat} {tickets : List Nat} (hleft : left = ticket :: tickets)
      (hturn : m.turn? below.length move = some (notification.target, ticket))
      (hinforms : m.move move =
        ({ m with stack := notification.pass tickets :: below } : Machine α β).inform notification
          ticket)
  | ends (hleft : left = []) (hturn : m.turn? below.length move = none)
      (hstack' : (m.move move).stack = below)
  | broken (hturn : m.turn? below.length move = none)
      (hunwinding : (m.move move).isUnwinding) (hstack' : (m.move move).stack = below)

/-- What is below the frame on top stays where it is, from a frame on that has nothing to hand over. -/
theorem suffix_move {frame top : Frame α β} {above : List (Frame α β)} (move : Move α β)
    (hwired : m.Wired) (hstack : m.stack = top :: above ++ frame :: below)
    (hframe : frame.hands = false) : ∃ above', (m.move move).stack = above' ++ frame :: below := by
  have htail : frame :: below <:+ above ++ frame :: below := List.suffix_append _ _
  have hafter {new rest : List (Frame α β)} (hrest : above ++ frame :: below <:+ rest)
      (hstack' : (m.move move).stack = new ++ rest) :
      ∃ above', (m.move move).stack = above' ++ frame :: below := by
    obtain ⟨between, hbetween⟩ := htail.trans hrest
    exact ⟨new ++ between, by rw [hstack', ← hbetween, List.append_assoc]⟩
  have hwhole : above ++ frame :: below <:+ m.stack := hstack ▸ List.suffix_cons _ _
  have hpopped {first : Frame α β} {rest : List (Frame α β)} (h : m.stack = first :: rest) :
      above ++ frame :: below <:+ rest := by
    rw [hstack] at h
    exact (List.cons.inj h).2 ▸ List.suffix_refl _
  by_cases hticks : m.opens move ∨ m.closes move
  · obtain ⟨-, -, hsame | ⟨views, hdraining⟩⟩ := ticks_move hticks
    · exact @hafter [] _ hwhole hsame
    · exact @hafter [_] _ hwhole hdraining
  · have hrestacks := restacks_move move hwired hticks
    -- what is swapped on top has something to hand over, so the frame is below that
    have hswapped {gone kept rest : List (Frame α β)} (hgone : ∀ frame ∈ gone, frame.hands)
        (h : m.stack = gone ++ rest) (hstack' : (m.move move).stack = kept ++ rest) :
        ∃ above', (m.move move).stack = above' ++ frame :: below := by
      have hsuffix : frame :: below <:+ gone ++ rest := h ▸ htail.trans hwhole
      obtain ⟨between, hbetween⟩ := suffix_of_append hsuffix fun hmem ↦ by
        simp [hgone frame hmem] at hframe
      exact ⟨kept ++ between, by rw [hstack', ← hbetween, List.append_assoc]⟩
    generalize acceptedIn (m.notices move) = accepted at hrestacks
    cases hrestacks with
    | swap hgone hkept h hstack' hunmoved => exact hswapped hgone h hstack'
    | @call _ call turn kept hkept hstack' hunmoved => exact @hafter (_ :: kept) _ hwhole hstack'
    | @emit _ source event answer gone kept rest hthere hgone hkept h hstack' hworld =>
      exact @hswapped gone (_ :: _ :: kept) rest hgone h hstack'
    | build hstack' hunmoved => exact @hafter [_, _, _] _ hwhole hstack'
    | ended h hworld | abandoned _ h hunmoved | drop h _ _ hunmoved =>
      exact @hafter [] _ (hpopped h) rfl
    | close h hstack' hviews hunmoved => exact @hafter [_] _ (hpopped h) hstack'
    | @proceed _ _ next new rest hnext h hstack' hnew hunmoved =>
      exact @hafter (new ++ [next]) _ (hpopped h) (by simpa using hstack')
    | fail h hstack' hunmoved => exact @hafter [_, _] _ (hpopped h) hstack'
    | work hlooks hnew h hstack' hunmoved | connected hnew hbegins h hstack' hunmoved =>
      exact hafter (hpopped h) hstack'

theorem tours_move {above : List (Frame α β)} {left : List Nat} (move : Move α β)
    (hwired : m.Wired) (hseated : m.Seated)
    (hstack : m.stack = above ++ notification.pass left :: below) :
    Tours notification below left move m := by
  cases above with
  | cons top above =>
    obtain ⟨above', hstack'⟩ := suffix_move move hwired hstack (Frame.hands_pass notification left)
    refine .waits (turn?_of_height move hstack fun hheight ↦ ?_) hstack'
    simp at hheight
    omega
  | nil =>
    rw [List.nil_append] at hstack
    have hkept (request : Request α β) (hsame : m.move (.request request) = m) :
        Tours notification below left (.request request) m := by
      have hstack' : (m.move (.request request)).stack = [] ++ notification.pass left :: below := by
        rw [hsame, hstack, List.nil_append]
      exact .waits rfl hstack'
    cases hcontrol : m.control with
    | user heard =>
      -- the user is called on top of a pass, never in its place
      exfalso
      rcases hseated (by simp [hasUser, hcontrol]) with hnil | ⟨call, turn, rest, hcalling⟩
      · simp [hnil] at hstack
      · rw [hcalling] at hstack
        cases notification <;> simp [Notification.pass] at hstack
    | returning answer =>
      cases move with
      | request request => exact hkept request (by simp [Machine.move, submit, hcontrol])
      | advance =>
        have hmoved : m.move .advance = m.resume answer := by simp [Machine.move, advance, hcontrol]
        have hturn := turn?_of_returning hcontrol hstack
        cases left with
        | nil =>
          refine .ends rfl (hturn.trans (Frame.next?_pass_nil notification)) ?_
          rw [hmoved]
          cases notification <;> simp only [resume, hstack, Notification.pass] <;> rfl
        | cons ticket tickets =>
          refine .turns rfl (hturn.trans (Frame.next?_pass_cons notification tickets ticket)) ?_
          exact hmoved.trans (resume_pass answer hstack)
    | unwinding message =>
      cases move with
      | request request => exact hkept request (by simp [Machine.move, submit, hcontrol])
      | advance =>
        have hmoved : m.move .advance = m.giveUp message := by
          simp [Machine.move, advance, hcontrol]
        have hgone : m.giveUp message = { m with stack := below } := by
          cases notification <;> simp only [giveUp, hstack, Notification.pass]
        rw [hgone] at hmoved
        refine .broken ?_ (by simp [hmoved, isUnwinding, hcontrol]) (by rw [hmoved])
        simp [turn?, hcontrol]

/-! ### Whom a round reaches -/

/-- Whom the pass on so many frames calls in a move: who is found under the ticket whose turn it
is. -/
def called? (height : Nat) (move : Move α β) (m : Machine α β) : Option (Nat × Listener) :=
  (m.turn? height move).bind fun turn ↦
    ((m.world.registry turn.1).find? turn.2).map fun listener ↦ (turn.2, listener)

/-- Whom the pass on so many frames calls, one after the other. -/
def called (height : Nat) : List (Move α β) → Machine α β → List (Nat × Listener)
  | [], _ => []
  | move :: rest, m => (m.called? height move).toList ++ called height rest (m.move move)

/-- The moves before the turn of a ticket. -/
def untilTurn (height ticket : Nat) : List (Move α β) → Machine α β → List (Move α β)
  | [], _ => []
  | move :: rest, m =>
    if (m.turn? height move).any (·.2 == ticket) then []
    else move :: untilTurn height ticket rest (m.move move)

/-- The registration does not go before its turn. -/
def Stays (target : Target) (height : Nat) (moves : List (Move α β)) (m : Machine α β)
    (ticket : Nat) : Prop :=
  Along (fun m move ↦ ¬m.Loses target ticket move) (m.untilTurn height ticket moves) m

instance (target : Target) (height : Nat) (moves : List (Move α β)) (m : Machine α β) :
    DecidablePred (m.Stays target height moves) := fun ticket ↦
  inferInstanceAs (Decidable (Along (fun m move ↦ ¬m.Loses target ticket move) _ _))

/-- Whom a pass is to call for a ticket. -/
def due? (target : Target) (height : Nat) (moves : List (Move α β)) (m : Machine α β)
    (ticket : Nat) : Option (Nat × Listener) :=
  if m.Stays target height moves ticket then
    ((m.world.registry target).find? ticket).map fun listener ↦ (ticket, listener)
  else none

section Due

variable {target : Target} {height ticket : Nat} {move : Move α β} {rest : List (Move α β)}

/-- Assumes: it is the turn of the ticket. -/
theorem due?_of_turn (hturn : m.turn? height move = some (target, ticket)) :
    m.due? target height (move :: rest) ticket = m.called? height move := by
  have huntil : m.untilTurn height ticket (move :: rest) = [] := by simp [untilTurn, hturn]
  have hstays : m.Stays target height (move :: rest) ticket := by
    rw [Stays, huntil]
    trivial
  rw [due?, if_pos hstays, called?, hturn]
  rfl

/-- A registration that does not go is found as before. -/
theorem find?_of_not_loses (hgiven : ticket < (m.world.registry target).next)
    (h : ¬m.Loses target ticket move) :
    ((m.move move).world.registry target).find? ticket =
      (m.world.registry target).find? ticket := by
  rcases ((changes_move move m).find?_registry hgiven).2 with hsame | hnone
  · exact hsame
  · have hgone : ticket ∉ ((m.move move).world.registry target).tickets := fun hmem ↦ by
      simpa [hnone] using Registry.find?_isSome_of_mem_tickets hmem
    have hbefore : ticket ∉ (m.world.registry target).tickets := fun hmem ↦ h ⟨hmem, hgone⟩
    rw [hnone, Registry.find?_eq_none_of_notMem hbefore]

/-- Assumes: it is not the turn of the ticket yet. -/
theorem due?_cons (hgiven : ticket < (m.world.registry target).next)
    (hturn : (m.turn? height move).any (·.2 == ticket) = false) :
    m.due? target height (move :: rest) ticket = (m.move move).due? target height rest ticket := by
  have hstays : m.Stays target height (move :: rest) ticket ↔
      ¬m.Loses target ticket move ∧ (m.move move).Stays target height rest ticket := by
    rw [Stays, untilTurn, hturn]
    exact Iff.rfl
  by_cases hloses : m.Loses target ticket move
  · have hgone := Registry.find?_eq_none_of_notMem hloses.2
    rw [due?, if_neg fun h ↦ (hstays.mp h).1 hloses, due?, hgone, Option.map_none, ite_self]
  · rw [due?, due?, find?_of_not_loses hgiven hloses]
    exact if_congr (hstays.trans (and_iff_right hloses)) rfl rfl

end Due

/-- Assumes: the pass is under way, until the end of the run, and is not given up. -/
theorem called_run {above : List (Frame α β)} {left : List Nat} {moves : List (Move α β)}
    (hwired : m.Wired) (hseated : m.Seated)
    (hstack : m.stack = above ++ notification.pass left :: below)
    (hnodup : left.Nodup)
    (hgiven : ∀ ticket ∈ left, ticket < (m.world.registry notification.target).next)
    (hlasts : Along (fun m _ ↦ below.length < m.stack.length) moves m)
    (hends : (m.run moves).stack.length = below.length)
    (hcalm : (m.run moves).isUnwinding = false) :
    m.called below.length moves =
      left.filterMap (m.due? notification.target below.length moves) := by
  -- on the run: what is due stays the same while the pass waits, and a turn takes the first of it
  induction moves generalizing m above left with
  | nil =>
    have hlength := congrArg List.length hstack
    rw [run_nil] at hends
    simp at hlength
    omega
  | cons move rest ih =>
    have hwired' := wired_move move hwired
    have hseated' := seated_move move hseated
    have hgiven' {tickets : List Nat} (hsub : tickets ⊆ left) : ∀ ticket ∈ tickets,
        ticket < ((m.move move).world.registry notification.target).next := fun ticket hticket ↦
      ((changes_move move m).find?_registry (hgiven ticket (hsub hticket))).1
    have hlast (hstack' : (m.move move).stack = below) : rest = [] := by
      cases rest with
      | nil => rfl
      | cons next later =>
        have hlow : below.length < (m.move move).stack.length := hlasts.2.1
        rw [hstack'] at hlow
        exact absurd hlow (Nat.lt_irrefl _)
    cases tours_move move hwired hseated hstack with
    | waits hturn hstack' =>
      have hcalled := ih hwired' hseated' hstack' hnodup (hgiven' (List.Subset.refl _)) hlasts.2
        hends hcalm
      rw [called, called?, hturn, hcalled]
      refine List.filterMap_congr fun ticket hticket ↦ ?_
      exact (due?_cons (hgiven ticket hticket) (by rw [hturn]; rfl)).symm
    | @turns ticket tickets hleft hturn hinforms =>
      obtain rfl := hleft
      obtain ⟨hnew, hnodup'⟩ := List.nodup_cons.mp hnodup
      obtain ⟨above', hstack'⟩ := stack_inform notification ticket
        { m with stack := notification.pass tickets :: below }
      have hcalled := ih hwired' hseated' ((congrArg _ hinforms).trans hstack') hnodup'
        (hgiven' (List.subset_cons_self _ _)) hlasts.2 hends hcalm
      have hothers : tickets.filterMap (m.due? notification.target below.length (move :: rest)) =
          tickets.filterMap ((m.move move).due? notification.target below.length rest) := by
        refine List.filterMap_congr fun other hother ↦ ?_
        refine due?_cons (hgiven other (List.mem_cons_of_mem _ hother)) ?_
        have hne : ticket ≠ other := fun heq ↦ hnew (heq ▸ hother)
        simpa [hturn] using hne
      rw [called, hcalled, List.filterMap_cons, due?_of_turn hturn, hothers]
      cases m.called? below.length move <;> rfl
    | ends hleft hturn hstack' =>
      obtain rfl := hleft
      obtain rfl := hlast hstack'
      rw [called, called?, hturn]
      rfl
    | broken hturn hunwinding hstack' =>
      obtain rfl := hlast hstack'
      simp [hunwinding] at hcalm

/-- Assumes: the pass is under way and stays so. -/
theorem exists_pass_run {above : List (Frame α β)} {left : List Nat} {moves : List (Move α β)}
    (hwired : m.Wired) (hseated : m.Seated)
    (hstack : m.stack = above ++ notification.pass left :: below)
    (hlasts : Along (fun m _ ↦ below.length < m.stack.length) moves m)
    (hstill : below.length < (m.run moves).stack.length) :
    ∃ above' left', (m.run moves).stack = above' ++ notification.pass left' :: below := by
  induction moves generalizing m above left with
  | nil => exact ⟨above, left, hstack⟩
  | cons move rest ih =>
    have hgoes {above' : List (Frame α β)} {left' : List Nat}
        (hstack' : (m.move move).stack = above' ++ notification.pass left' :: below) :=
      ih (wired_move move hwired) (seated_move move hseated) hstack' hlasts.2 hstill
    cases tours_move move hwired hseated hstack with
    | waits hturn hstack' => exact hgoes hstack'
    | @turns ticket tickets hleft hturn hinforms =>
      obtain ⟨above', hstack'⟩ := stack_inform notification ticket
        { m with stack := notification.pass tickets :: below }
      exact hgoes ((congrArg _ hinforms).trans hstack')
    | ends _ _ hstack' | broken _ _ hstack' =>
      have hlow : below.length < (m.move move).stack.length := by
        cases rest with
        | nil => exact hstill
        | cons next later => exact hlasts.2.1
      rw [hstack'] at hlow
      exact absurd hlow (Nat.lt_irrefl _)

end Machine

/-! ### Rounds -/

open Machine in
/-- A pass over the listeners of a source or of a view, from the move in which it begins to the one
in which it ends. Nobody raises out of it. -/
structure Round (α β : Type) where
  before : List (Move α β)
  first : Move α β
  during : List (Move α β)
  notification : Notification α β
  tickets : List Nat
  below : List (Frame α β)
  /-- The pass is put on top of what is under way, so it is not one that goes on. -/
  begins : (run before ({} : Machine α β)).stack.length < (run (before ++ [first]) {}).stack.length
  pass : (run (before ++ [first]) {}).stack = notification.pass tickets :: below
  /-- The pass is on the stack until its last move. -/
  lasts : Along (fun m _ ↦ below.length < m.stack.length) during (run (before ++ [first]) {})
  ends : (run during (run (before ++ [first]) {})).stack.length = below.length
  calm : (run during (run (before ++ [first]) {})).isUnwinding = false

namespace Round

variable (round : Round α β)

def target : Target := round.notification.target

/-- On how many frames the pass lies. -/
def height : Nat := round.below.length

/-- The machine when the pass has begun. -/
def start : Machine α β := Machine.run (round.before ++ [round.first]) {}

/-- Who is registered when the pass begins. -/
def registered : List (Nat × Listener) := (round.start.world.registry round.target).entries

/-- Whom the pass calls, one after the other. -/
def called : List (Nat × Listener) := round.start.called round.height round.during

/-- The registration has not gone before its turn. -/
def Stays (ticket : Nat) : Prop := round.start.Stays round.target round.height round.during ticket

instance : DecidablePred round.Stays := fun ticket ↦
  inferInstanceAs (Decidable (round.start.Stays round.target round.height round.during ticket))

theorem ordered : (round.start.world.registry round.target).Ordered :=
  Machine.ordered_registry_run _ _

theorem wired (early : List (Move α β)) : (round.start.run early).Wired :=
  Machine.run_preserves (fun _ move ↦ Machine.wired_move move) (Machine.wired_run _) early

theorem seated (early : List (Move α β)) : (round.start.run early).Seated := by
  have hmove (m : Machine α β) (move : Move α β) (h : m.Seated) : (m.move move).Seated :=
    Machine.seated_move move h
  exact Machine.run_preserves hmove (Machine.run_preserves hmove (fun _ ↦ .inl rfl) _) early

/-- The pass is to go to everybody who is registered when it begins. -/
theorem tickets_eq : round.tickets = round.registered.map (·.1) := by
  have hfirst : round.start = (Machine.run round.before {}).move round.first :=
    Machine.run_append round.before [round.first] {}
  have hbegins : (Machine.run round.before {}).stack.length <
      ((Machine.run round.before {}).move round.first).stack.length :=
    lt_of_lt_of_eq round.begins (congrArg (·.stack.length) hfirst)
  have htickets := Machine.tickets_of_begins hbegins
    ((congrArg (·.stack) hfirst).symm.trans round.pass)
  rw [← hfirst] at htickets
  exact htickets

/-- Everybody is called who was registered and has not gone before its turn, and nobody else. -/
theorem called_eq : round.called = round.registered.filter fun entry ↦ round.Stays entry.1 := by
  have hsorted := round.ordered.sorted
  have htickets : round.tickets.Nodup := by
    rw [tickets_eq, List.nodup_iff_pairwise_ne, List.pairwise_map]
    exact hsorted.imp Nat.ne_of_lt
  have hgiven : ∀ ticket ∈ round.tickets,
      ticket < (round.start.world.registry round.target).next := by
    rw [tickets_eq]
    intro ticket hticket
    obtain ⟨entry, hentry, rfl⟩ := List.mem_map.mp hticket
    exact round.ordered.given entry hentry
  have hcalled : round.called =
      round.tickets.filterMap (round.start.due? round.target round.height round.during) :=
    @Machine.called_run α β round.start round.notification round.below [] round.tickets _
      (round.wired []) (round.seated []) round.pass htickets hgiven round.lasts round.ends round.calm
  rw [hcalled, tickets_eq, List.filterMap_map, ← List.filterMap_eq_filter]
  refine List.filterMap_congr fun entry hentry ↦ ?_
  have hfound := round.ordered.find?_of_mem hentry
  by_cases hstays : round.Stays entry.1
  · have hdue : round.start.due? round.target round.height round.during entry.1 = some entry := by
      refine (if_pos hstays).trans ?_
      rw [hfound]
      rfl
    simp [hdue, Option.guard, hstays]
  · have hdue : round.start.due? round.target round.height round.during entry.1 = none :=
      if_neg hstays
    simp [hdue, Option.guard, hstays]

/-- Assumes: it is the turn of somebody in the move. -/
theorem exists_informs {early late : List (Move α β)} {move : Move α β} {turn : Target × Nat}
    (hduring : round.during = early ++ move :: late)
    (hturn : (round.start.run early).turn? round.height move = some turn) :
    turn.1 = round.target ∧ ∃ left, (round.start.run early).move move =
      ({ round.start.run early with
          stack := round.notification.pass left :: round.below } : Machine α β).inform
        round.notification turn.2 := by
  have hlasts := round.lasts
  rw [hduring, Machine.along_append] at hlasts
  obtain ⟨above, left, hstack⟩ := @Machine.exists_pass_run α β round.start round.notification
    round.below [] round.tickets early (round.wired []) (round.seated []) round.pass hlasts.1
      hlasts.2.1
  cases Machine.tours_move move (round.wired early) (round.seated early) hstack with
  | waits hnone _ | ends _ hnone _ | broken hnone _ _ =>
    exact absurd (hturn.symm.trans hnone) (by simp)
  | @turns ticket tickets hleft hnext hinforms =>
    obtain rfl := Option.some.inj (hturn.symm.trans hnext)
    exact ⟨rfl, tickets, hinforms⟩

/-- A ticket that is given out during the round is none for which anybody is called. -/
theorem lt_next_of_called {early : List (Move α β)} {entry : Nat × Listener}
    (hentry : entry ∈ round.called) :
    entry.1 < ((round.start.run early).world.registry round.target).next := by
  rw [called_eq] at hentry
  have hgiven := round.ordered.given entry (List.mem_filter.mp hentry).1
  refine @Machine.run_preserves α β (fun m ↦ entry.1 < (m.world.registry round.target).next)
    (fun m move hgiven ↦ ?_) _ hgiven early
  exact ((Machine.changes_move move m).find?_registry hgiven).1

end Round

/-- The first of four callbacks subscribes a fifth one, cancels the subscription of the third one
twice, notifies everybody anew and cancels its own subscription. -/
def changedWhileNotified : Round Nat (List Nat) where
  before := Move.script 4 [.newSource "a", .subscribe (.source 0) 10, .finish,
    .subscribe (.source 0) 11, .finish, .subscribe (.source 0) 12, .finish,
    .subscribe (.source 0) 13, .finish]
  first := .request (.emit 0 (.loaded 1))
  during := .advance :: Move.script 8 [.subscribe (.source 0) 14, .finish, .cancel 2, .cancel 2,
    .emit 0 (.loaded 2), .finish, .finish, .finish, .finish, .cancel 0, .finish, .finish] ++
      [.request .finish, .advance]
  notification := .ofSource 0 (.loaded 1)
  tickets := [0, 1, 2, 3]
  below := [.closing (.accepted true)]
  begins := by decide +kernel
  pass := by rfl
  lasts := by decide +kernel
  ends := by decide +kernel
  calm := by decide +kernel

/-- Where the first callback is about to cancel the subscription of the third one. -/
def cancelsThird : Machine Nat (List Nat) :=
  changedWhileNotified.start.run
    (.advance :: Move.script 8 [.subscribe (.source 0) 14, .finish])

end LiveRecord.Flow
