import LiveRecord.Flow.Machine

/-!
# Runs of the reactive core

A run is a list of moves from the machine that has nothing yet: requests of the user, which it may
submit whenever it has control, also in the middle of a callback, and steps of the core. The history
of a run lists what can be observed of it: what sources accepted, what the inputs of views were
given, what views composed and what their listeners heard. It is read off the machine before each
move (`Machine.notices`).

Classes of runs are given by what each move of a run is allowed to do (`Machine.Along`), and what
every allowed move preserves holds after every run of the class (`Machine.Along.invariant`).
-/

set_option autoImplicit false

namespace LiveRecord.Flow

/-- What happened to one view. -/
inductive ViewNotice (α β : Type)
  /-- An input of the view was given an event. -/
  | delivered (slot : Nat) (event : Event α)
  /-- The composer was called with these values. -/
  | called (inputs : List α)
  /-- A value came out of the composer, while these failures had not been announced yet. -/
  | composed (value : β) (waiting : List SourceError)
  /-- A listener of the view was called. -/
  | heard (ticket : Nat) (event : ViewEvent β)
deriving DecidableEq

inductive Notice (α β : Type)
  | accepted (source : SourceId) (event : Event α)
  | ofView (view : ViewId) (notice : ViewNotice α β)
deriving DecidableEq

inductive Move (α β : Type)
  | request (request : Request α β)
  /-- A step of the core. -/
  | advance

variable {α β : Type}

/-- The move ends a tick whose body raised. -/
def Move.abandons : Move α β → Bool
  | request .abandonTick => true
  | _ => false

/-- A run in which the core takes some steps after each request. While the user has control, a step
changes nothing. -/
def Move.script (steps : Nat) (requests : List (Request α β)) : List (Move α β) :=
  requests.flatMap fun request ↦ .request request :: List.replicate steps .advance

/-! ### What a history says of one view -/

/-- What a notice says of a view. -/
def Notice.of? (view : ViewId) : Notice α β → Option (ViewNotice α β)
  | accepted _ _ => none
  | ofView other notice => if other = view then some notice else none

/-- What a history says of a view. -/
def historyOf (view : ViewId) (history : List (Notice α β)) : List (ViewNotice α β) :=
  history.filterMap (·.of? view)

@[simp] theorem historyOf_nil (view : ViewId) : historyOf view ([] : List (Notice α β)) = [] := rfl

theorem historyOf_append (view : ViewId) (first last : List (Notice α β)) :
    historyOf view (first ++ last) = historyOf view first ++ historyOf view last :=
  List.filterMap_append

namespace ViewNotice

/-- The events that an input was given. -/
def deliveries (slot : Nat) (history : List (ViewNotice α β)) : List (Event α) :=
  history.filterMap fun
    | delivered other event => if other = slot then some event else none
    | _ => none

/-- The newest event that an input was given. It is pending until then. -/
def newest (slot : Nat) (history : List (ViewNotice α β)) : Event α :=
  (deliveries slot history).getLastD .pending

/-- The values that the composer was called with, call after call. -/
def calls (history : List (ViewNotice α β)) : List (List α) :=
  history.filterMap fun
    | called inputs => some inputs
    | _ => none

/-- The values that came out of the composer, each with the failures that were waiting. -/
def compositions (history : List (ViewNotice α β)) : List (β × List SourceError) :=
  history.filterMap fun
    | composed value waiting => some (value, waiting)
    | _ => none

/-- What a listener heard. -/
def heardBy (ticket : Nat) (history : List (ViewNotice α β)) : List (ViewEvent β) :=
  history.filterMap fun
    | heard other event => if other = ticket then some event else none
    | _ => none

/-- An input was given a loaded value. -/
def loads : ViewNotice α β → Bool
  | delivered _ event => event.isLoaded
  | _ => false

section Append

variable {first last : List (ViewNotice α β)}

theorem deliveries_append (slot : Nat) :
    deliveries slot (first ++ last) = deliveries slot first ++ deliveries slot last :=
  List.filterMap_append

theorem calls_append : calls (first ++ last) = calls first ++ calls last :=
  List.filterMap_append

theorem compositions_append :
    compositions (first ++ last) = compositions first ++ compositions last :=
  List.filterMap_append

theorem heardBy_append (ticket : Nat) :
    heardBy ticket (first ++ last) = heardBy ticket first ++ heardBy ticket last :=
  List.filterMap_append

theorem newest_concat_delivered (slot k : Nat) (event : Event α) :
    newest k (first ++ [.delivered slot event]) = if slot = k then event else newest k first := by
  rw [newest, deliveries_append]
  by_cases hk : slot = k
  · simp [deliveries, hk]
  · simp [deliveries, hk, newest]

end Append

end ViewNotice

namespace Machine

/-! ### Moves and what they are seen to do -/

def move (move : Move α β) (m : Machine α β) : Machine α β :=
  match move with
  | .request request => m.submit request
  | .advance => m.advance

def emitNotices (source : SourceId) (event : Event α) (m : Machine α β) : List (Notice α β) :=
  match m.world.sources[source]? with
  | none => []
  | some s =>
    match event, s.current with
    | .pending, .loaded _ => []
    | _, _ => [.accepted source event]

/-- Nothing is delivered to a view that was disposed of, nor while its values are lent. -/
def hearNotices (view : ViewId) (slot : Nat) (event : Event α) (m : Machine α β) :
    List (Notice α β) :=
  match m.world.liveView? view with
  | none => []
  | some v =>
    if v.disposed || v.lent && event.isLoaded then []
    else [.ofView view (.delivered slot event)]

def composeNotices (view : ViewId) (m : Machine α β) : List (Notice α β) :=
  match m.world.views[view]? with
  | none => []
  | some v =>
    if v.isDue then
      match v.cachedValues?, v.composer with
      | none, _ => []
      | some inputs, .direct compose =>
        [.ofView view (.called inputs), .ofView view (.composed (compose inputs) v.failures)]
      | some inputs, .callback _ => [.ofView view (.called inputs)]
    else []

def feedNotices (feed : Feed α) (m : Machine α β) : List (Notice α β) :=
  match feed.next with
  | .stop _ => []
  | .emit event _ => m.emitNotices feed.source event

def requestNotices (request : Request α β) (m : Machine α β) : List (Notice α β) :=
  match request with
  | .emit source event => m.emitNotices source event
  | .poll feed => m.feedNotices feed
  | .subscribe (.view view) _ =>
    match m.world.liveView? view with
    | none => []
    | some v => v.status.event?.toList.map fun event ↦ .ofView view (.heard v.listeners.next event)
  | _ => []

def resumeNotices (answer : Answer α β) (m : Machine α β) : List (Notice α β) :=
  match m.stack with
  | .delivering source event (ticket :: _) :: _ =>
    match m.world.sourceListener? source ticket with
    | some (.input view slot) => m.hearNotices view slot event
    | _ => []
  | .announcing view event (ticket :: _) :: _ =>
    match m.world.viewListener? view ticket with
    | none => []
    | some _ => [.ofView view (.heard ticket event)]
  | .failing view [] :: _ => m.composeNotices view
  | .composing view :: _ =>
    match answer, m.world.views[view]? with
    | .composed value, some v => [.ofView view (.composed value v.failures)]
    | _, _ => []
  | .connecting view ((source, slot) :: _) :: _ =>
    match m.world.sources[source]? with
    | none => []
    | some s => m.hearNotices view slot s.current
  | .feeding rest :: _ =>
    match answer with
    | .accepted accepted =>
      match rest.note accepted with
      | .inl _ => []
      | .inr rest => m.feedNotices rest
    | _ => m.feedNotices rest
  | _ => []

/-- What a move does to sources, views and listeners, in order. -/
def notices (move : Move α β) (m : Machine α β) : List (Notice α β) :=
  match move, m.control with
  | .request request, .user _ => m.requestNotices request
  | .advance, .returning answer => m.resumeNotices answer
  | _, _ => []

/-! ### Runs -/

def run (moves : List (Move α β)) (m : Machine α β) : Machine α β :=
  moves.foldl (fun m move ↦ m.move move) m

def history : List (Move α β) → Machine α β → List (Notice α β)
  | [], _ => []
  | move :: rest, m => m.notices move ++ history rest (m.move move)

/-- Every move of a run is allowed where it is made. -/
def Along (allowed : Machine α β → Move α β → Prop) : List (Move α β) → Machine α β → Prop
  | [], _ => True
  | move :: rest, m => allowed m move ∧ Along allowed rest (m.move move)

instance (allowed : Machine α β → Move α β → Prop) [∀ m move, Decidable (allowed m move)] :
    (moves : List (Move α β)) → (m : Machine α β) → Decidable (Along allowed moves m)
  | [], _ => .isTrue trivial
  | move :: rest, m =>
    have := instDecidableAlong allowed rest (m.move move)
    inferInstanceAs (Decidable (allowed m move ∧ Along allowed rest (m.move move)))

@[simp] theorem run_nil (m : Machine α β) : m.run [] = m := rfl

@[simp] theorem run_cons (move : Move α β) (rest : List (Move α β)) (m : Machine α β) :
    m.run (move :: rest) = (m.move move).run rest := rfl

theorem run_append (first last : List (Move α β)) (m : Machine α β) :
    m.run (first ++ last) = (m.run first).run last :=
  List.foldl_append

theorem history_append (first last : List (Move α β)) (m : Machine α β) :
    m.history (first ++ last) = m.history first ++ (m.run first).history last := by
  induction first generalizing m with
  | nil => rfl
  | cons move rest ih => simp only [List.cons_append, history, ih, run_cons, List.append_assoc]

theorem along_append {allowed : Machine α β → Move α β → Prop} {first last : List (Move α β)}
    {m : Machine α β} :
    Along allowed (first ++ last) m ↔ Along allowed first m ∧ Along allowed last (m.run first) := by
  induction first generalizing m with
  | nil => simp [Along]
  | cons move rest ih => simp only [List.cons_append, Along, ih, run_cons, and_assoc]

theorem along_of_forall {allowed : Machine α β → Move α β → Prop} (h : ∀ m move, allowed m move)
    (moves : List (Move α β)) (m : Machine α β) : Along allowed moves m := by
  induction moves generalizing m with
  | nil => trivial
  | cons move rest ih => exact ⟨h m move, ih _⟩

/-- What holds at the start of a run, and after each allowed move if it held before, holds at its
end. The property may speak of the history so far. -/
theorem Along.invariant {allowed : Machine α β → Move α β → Prop}
    {property : Machine α β → List (Notice α β) → Prop} {start : Machine α β}
    (hstart : property start [])
    (hmove : ∀ m past move, property m past → allowed m move →
      property (m.move move) (past ++ m.notices move))
    {moves : List (Move α β)} (h : Along allowed moves start) :
    property (start.run moves) (start.history moves) := by
  suffices hall : ∀ (moves : List (Move α β)) (m : Machine α β) (past : List (Notice α β)),
      property m past → Along allowed moves m → property (m.run moves) (past ++ m.history moves) by
    simpa using hall moves start [] hstart h
  intro moves
  induction moves with
  | nil => intro m past hm _; simpa [history] using hm
  | cons move rest ih =>
    intro m past hm hmoves
    simpa [history] using ih _ _ (hmove m past move hm hmoves.1) hmoves.2

/-- What every move preserves, every run preserves. -/
theorem run_preserves {property : Machine α β → Prop}
    (hmove : ∀ m move, property m → property (m.move move)) {start : Machine α β}
    (hstart : property start) (moves : List (Move α β)) : property (start.run moves) := by
  induction moves generalizing start with
  | nil => exact hstart
  | cons move rest ih => exact ih (hmove start move hstart)

/-! ### Classes of runs -/

/-- The user has control. -/
def hasUser (m : Machine α β) : Bool :=
  match m.control with
  | .user _ => true
  | _ => false

/-- The core is giving operations up. -/
def isUnwinding (m : Machine α β) : Bool :=
  match m.control with
  | .unwinding _ => true
  | _ => false

/-- No operation of the core is under way. -/
def AtRest (m : Machine α β) : Prop := m.stack = [] ∧ m.hasUser

instance (m : Machine α β) : Decidable m.AtRest := by
  unfold AtRest
  infer_instance

theorem exists_heard {m : Machine α β} (h : m.hasUser) : ∃ heard, m.control = .user heard := by
  unfold hasUser at h
  split at h
  case h_1 heard hcontrol => exact ⟨heard, hcontrol⟩
  case h_2 => contradiction

theorem submit_eq_serve {m : Machine α β} (h : m.hasUser) (request : Request α β) :
    m.submit request = m.serve request := by
  obtain ⟨heard, hcontrol⟩ := exists_heard h
  simp only [submit, hcontrol]

theorem notices_request {m : Machine α β} (h : m.hasUser) (request : Request α β) :
    m.notices (.request request) = m.requestNotices request := by
  obtain ⟨heard, hcontrol⟩ := exists_heard h
  simp only [notices, hcontrol]

/-- In the move nothing raises: no callback, not the body of a tick, and not the core itself. -/
def RaiseFree (m : Machine α β) (move : Move α β) : Prop :=
  move.abandons = false ∧ (m.move move).isUnwinding = false

instance (m : Machine α β) (move : Move α β) : Decidable (m.RaiseFree move) := by
  unfold RaiseFree
  infer_instance

end Machine

end LiveRecord.Flow
