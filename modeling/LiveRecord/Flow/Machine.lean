import LiveRecord.Flow.Feed
import LiveRecord.Flow.World

/-!
The reactive core as a machine that takes small steps.

Whoever uses the core is outside the machine: it submits requests (`Machine.submit`) and is called
back, also in the middle of an operation. A stack of frames says what the core still has to do, the
innermost operation first, and `Control` says who acts: the user, the core on its way back from
something that is done (`returning`), or the core giving up operations because a callback raised
(`unwinding`). `Machine.advance` takes one step of the core. The user may submit any request
whenever it has control, so everything that holds after every step holds for all callbacks.

What a callback owns is the user's, who cancels and drops it. The core has a part in that only where
it takes a callback out of a list of listeners and nothing else has the callback: what it owns is
dropped then and there (`Machine.drop`), before the list can be changed again. A second raise in the
course of that ends a program, and the core goes on as after the first. Values are data and own
nothing.
-/

set_option autoImplicit false

namespace LiveRecord.Flow

/-- A call out to the user. -/
inductive Call (α β : Type)
  | sourceEvent (key : Nat) (event : Event α)
  | viewEvent (key : Nat) (event : ViewEvent β)
  | compose (key : Nat) (inputs : List α)

inductive Answer (α β : Type)
  | done
  | accepted (accepted : Bool)
  | composed (value : β)
  | subscribed (handle : Nat)
  | created (source : SourceId)
  | built (view : ViewId)
  | polled (progress : FeedProgress α)
  /-- The request names something that does not exist. -/
  | unknown

/-- What a callback owns: subscriptions, each with what its callback owns, and views, each with what
its composer owns and what the callbacks of its listeners own. If a source goes with the callback,
what the callbacks of its listeners own is counted among what this one owns. -/
inductive Belongings
  | nothing
  | subscription (handle : Nat) (owned rest : Belongings)
  | view (view : ViewId) (composer listeners rest : Belongings)
deriving DecidableEq, Repr

inductive Request (α β : Type)
  | newSource (name : String)
  | emit (source : SourceId) (event : Event α)
  | build (sources : List SourceId) (composer : Composer α β)
  | subscribe (target : Target) (key : Nat)
  /-- Cancels a subscription whose callback owns something, or nothing. -/
  | cancel (handle : Nat) (owned : Belongings := .nothing)
  | detach (handle : Nat)
  | dispose (view : ViewId)
  | dropView (view : ViewId)
  | enterTick
  | leaveTick
  /-- Ends a tick whose body raised. -/
  | abandonTick
  | poll (feed : Feed α)
  /-- Ends the callback at work. -/
  | finish
  /-- Ends the composing callback at work with its value. -/
  | compose (value : β)
  /-- Ends the callback at work by raising. -/
  | raise (message : String)

/-- What the core still has to do when the frames above have finished. -/
inductive Frame (α β : Type)
  /-- The user is at work on a call. If it is the turn of a registration in a pass, it is this one. -/
  | calling (call : Call α β) (turn : Option (Target × Nat))
  /-- End a tick, run what was deferred, then answer. -/
  | closing (answer : Answer α β)
  | draining (views : List ViewId) (answer : Answer α β)
  /-- Deliver an event of a source to the tickets that are left of a pass. -/
  | delivering (source : SourceId) (event : Event α) (tickets : List Nat)
  /-- Deliver an event of a view to the tickets that are left of a pass. -/
  | announcing (view : ViewId) (event : ViewEvent β) (tickets : List Nat)
  /-- Announce these failures, then compose if a value is due. -/
  | failing (view : ViewId) (errors : List SourceError)
  /-- Wait for the value of a composing callback. -/
  | composing (view : ViewId)
  /-- See whether news arrived while the view was at work. -/
  | settling (view : ViewId)
  /-- Keep a view from being taken apart. -/
  | holding (view : ViewId)
  | subscribing (target : Target) (ticket : Nat)
  /-- Connect the inputs that are left, then compose. -/
  | connecting (view : ViewId) (inputs : List (SourceId × Nat))
  /-- Hand a new view over to its owner. -/
  | building (view : ViewId)
  | feeding (feed : Feed α)

/-- Whether a frame keeps a view from being taken apart. -/
def Frame.holds {α β : Type} (view : ViewId) : Frame α β → Bool
  | holding v => v == view
  | subscribing (.view v) _ => v == view
  | building v => v == view
  | _ => false

/-- Whether a frame has the callback of a registration: it is at work, or its turn is to come. -/
def Frame.keeps {α β : Type} (target : Target) (ticket : Nat) : Frame α β → Bool
  | calling _ turn => turn == some (target, ticket)
  | delivering source _ tickets => target == .source source && tickets.contains ticket
  | announcing view _ tickets => target == .view view && tickets.contains ticket
  | _ => false

/-- What the user last heard, when it has control. -/
inductive Heard (α β : Type)
  | called (call : Call α β)
  | answered (answer : Answer α β)
  | raised (message : String)

inductive Control (α β : Type)
  | user (heard : Heard α β)
  | returning (answer : Answer α β)
  | unwinding (message : String)

structure Machine (α β : Type) where
  world : World α β := {}
  stack : List (Frame α β) := []
  control : Control α β := .user (.answered .done)

namespace Machine

variable {α β : Type}

/-- The message of a raise where something would change that is in use: a value while a callback
composes with it, or a list while a listener is taken out of it. -/
def lentMessage : String := "RefCell already borrowed"

def withWorld (f : World α β → World α β) (m : Machine α β) : Machine α β :=
  { m with world := f m.world }

def push (frame : Frame α β) (m : Machine α β) : Machine α β :=
  { m with stack := frame :: m.stack }

def returning (answer : Answer α β) (m : Machine α β) : Machine α β :=
  { m with control := .returning answer }

def tell (heard : Heard α β) (m : Machine α β) : Machine α β :=
  { m with control := .user heard }

def answer (answer : Answer α β) (m : Machine α β) : Machine α β := m.tell (.answered answer)

def call (call : Call α β) (m : Machine α β) (turn : Option (Target × Nat) := none) :
    Machine α β :=
  (m.push (.calling call turn)).tell (.called call)

def unwind (message : String) (m : Machine α β) : Machine α β :=
  { m with control := .unwinding message }

/-- Takes a view apart if nobody holds it. -/
def release (view : ViewId) (m : Machine α β) : Machine α β :=
  match m.world.liveView? view with
  | some v =>
    if v.owned || m.stack.any (·.holds view) then m else m.withWorld (.takeApart view)
  | none => m

/-- Goes through the news of a view: first the failures, then a value if one is due. -/
def workOff (view : ViewId) (m : Machine α β) : Machine α β :=
  match m.world.views[view]? with
  | none => m.returning .done
  | some v =>
    if v.disposed then
      (m.withWorld
        (.modifyView view fun v ↦ { v with dirty := false, composing := false })).returning .done
    else
      ((m.withWorld (.modifyView view fun v ↦ { v with dirty := false, failures := [] })).push
        (.failing view v.failures)).returning .done

/-- Begins to go through the news of a view, or tells the view at work that there is more. -/
def flush (view : ViewId) (m : Machine α β) : Machine α β :=
  match m.world.views[view]? with
  | none => m.returning .done
  | some v =>
    if v.composing then
      (m.withWorld (.modifyView view fun v ↦ { v with dirty := true })).returning .done
    else (m.withWorld (.modifyView view fun v ↦ { v with composing := true })).workOff view

/-- Ends the work on a view unless there is more news. -/
def settle (view : ViewId) (m : Machine α β) : Machine α β :=
  match m.world.views[view]? with
  | none => m.returning .done
  | some v =>
    if v.dirty then m.workOff view
    else (m.withWorld (.modifyView view fun v ↦ { v with composing := false })).returning .done

/-- Composes at the end of the outermost tick, or now if no tick is open. -/
def requestCompose (view : ViewId) (m : Machine α β) : Machine α β :=
  match m.world.views[view]? with
  | none => m.returning .done
  | some v =>
    if !m.world.inTick then m.flush view
    else if v.scheduled then m.returning .done
    else (m.withWorld (.schedule view)).returning .done

/-- Announces a composed value. -/
def becomeReady (view : ViewId) (value : β) (m : Machine α β) : Machine α β :=
  let m := m.withWorld (.modifyView view (.becomeReady value))
  ((m.push (.settling view)).push
    (.announcing view (.ready value) (m.world.viewTickets view))).returning .done

/-- Composes if a value is due. -/
def composeIfDue (view : ViewId) (m : Machine α β) : Machine α β :=
  match m.world.views[view]? with
  | none => m.returning .done
  | some v =>
    if v.isDue then
      let m := m.withWorld (.modifyView view fun v ↦ { v with stale := false })
      match v.cachedValues?, v.composer with
      | none, _ => m.settle view
      | some inputs, .direct compose => m.becomeReady view (compose inputs)
      | some inputs, .callback key =>
        ((m.withWorld (.modifyView view fun v ↦ { v with lent := true })).push
          (.composing view)).call (.compose key inputs)
    else m.settle view

/-- An input of a view hears an event. A loaded value cannot be kept while the values are lent. -/
def hear (view : ViewId) (slot : Nat) (event : Event α) (m : Machine α β) : Machine α β :=
  match m.world.liveView? view with
  | none => m.returning .done
  | some v =>
    let m := m.push (.holding view)
    if v.lent && event.isLoaded then m.unwind lentMessage
    else
      let m := m.withWorld (.modifyView view (.absorb slot event))
      if v.disposed then m.returning .done
      else
        match event with
        | .pending => m.returning .done
        | .loaded _ => m.requestCompose view
        | .failed _ => m.flush view

/-- Starts the composition of a view at the end of a tick, unless it has been taken apart. -/
def runDeferred (view : ViewId) (m : Machine α β) : Machine α β :=
  match m.world.liveView? view with
  | none => m.returning .done
  | some _ =>
    ((m.push (.holding view)).withWorld
      (.modifyView view fun v ↦ { v with scheduled := false })).flush view

/-- Ends the innermost tick, and answers after what was deferred. -/
def closeTick (answer : Answer α β) (m : Machine α β) : Machine α β :=
  let (views, world) := m.world.closeTick
  ({ m with world }.push (.draining views answer)).returning .done

/-- Publishes an event of a source, in a tick of its own. A source that has loaded does not become
pending again. -/
def emit (source : SourceId) (event : Event α) (m : Machine α β) : Machine α β :=
  match m.world.sources[source]? with
  | none => m.returning .unknown
  | some s =>
    match event, s.current with
    | .pending, .loaded _ => m.returning (.accepted false)
    | _, _ =>
      let m := (m.withWorld .openTick).withWorld
        (.modifySource source fun s ↦ { s with current := event })
      ((m.push (.closing (.accepted true))).push
        (.delivering source event (m.world.sourceTickets source))).returning .done

/-- Connects the next input of a new view, which hears the current event at once. -/
def connect (view : ViewId) (source : SourceId) (slot : Nat) (m : Machine α β) : Machine α β :=
  match m.world.sources[source]? with
  | none => m.returning .done
  | some s =>
    let ticket := s.listeners.next
    let m := m.withWorld (.registerAtSource source (.input view slot))
    let m := m.withWorld
      (.modifyView view fun v ↦ { v with inputs := v.inputs ++ [(source, ticket)] })
    m.hear view slot s.current

/-- Builds a view in a tick of its own, so that inputs that have loaded are composed once. -/
def build (sources : List SourceId) (composer : Composer α β) (m : Machine α β) : Machine α β :=
  match sources.mapM fun source ↦ m.world.sources[source]? with
  | none => m.returning .unknown
  | some found =>
    let view := m.world.views.length
    let new : View α β :=
      { label := labelOf (found.map (·.name)), composer, slots := found.map fun _ ↦ {} }
    let m := (m.withWorld .openTick).withWorld (.addView new)
    (((m.push (.building view)).push (.closing .done)).push
      (.connecting view sources.zipIdx)).returning .done

/-- Registers a callback, which hears the current state at once if there is one to hear. -/
def subscribe (target : Target) (key : Nat) (m : Machine α β) : Machine α β :=
  match target with
  | .source source =>
    match m.world.sources[source]? with
    | none => m.returning .unknown
    | some s =>
      ((m.withWorld (.registerAtSource source (.callback key))).push
        (.subscribing target s.listeners.next)).call (.sourceEvent key s.current)
  | .view view =>
    match m.world.liveView? view with
    | none => m.returning .unknown
    | some v =>
      let m := (m.withWorld (.registerAtView view key)).push (.subscribing target v.listeners.next)
      match v.status.event? with
      | none => m.returning .done
      | some event => m.call (.viewEvent key event)

/-- Goes on with a feed. -/
def feed (feed : Feed α) (m : Machine α β) : Machine α β :=
  match feed.next with
  | .stop progress => m.returning (.polled progress)
  | .emit event rest => (m.push (.feeding rest)).emit feed.source event

/-- Drops the view from its owner's hands. -/
def dropView (view : ViewId) (m : Machine α β) : Machine α β :=
  (m.withWorld (.modifyView view fun v ↦ { v with owned := false })).release view

/-- Whether the callback of a registration is dropped when it is taken out of its list. -/
def frees (target : Target) (ticket : Nat) (m : Machine α β) : Bool :=
  m.world.lists target ticket && !m.stack.any (·.keeps target ticket)

/-- Whether a view is taken apart when its owner drops it. -/
def letsGo (view : ViewId) (m : Machine α β) : Bool :=
  (m.world.liveView? view).isSome && !m.stack.any (·.holds view)

/-- A registration that is called no more stays in its list, which raises. -/
def refuse (target : Target) (m : Machine α β) : Machine α β :=
  (m.withWorld (.strand target)).unwind lentMessage

/-- The inputs of a view that are registered in these lists. -/
def inputsIn (locked : List Target) (view : ViewId) (m : Machine α β) : List Target :=
  match m.world.views[view]? with
  | some v => (v.inputs.map fun input ↦ .source input.1).filter locked.contains
  | none => []

/-- Drops what callbacks own, while listeners are being taken out of these lists. What is registered
in one of them, a subscription or an input of a view, cannot be taken out and stays there, which
raises. The rest is dropped nevertheless. The listeners of a view go when its list is given back. -/
def drop (locked : List Target) : Belongings → Machine α β → Machine α β
  | .nothing, m => m
  | .subscription handle owned rest, m =>
    let left := m.withWorld (.cancel handle)
    drop locked rest <|
      match m.world.handles[handle]? with
      | some { target, ticket, state := .active } =>
        if locked.contains target then left.refuse target
        else if m.frees target ticket then drop (target :: locked) owned left
        else left
      | _ => left
  | .view view composer listeners rest, m =>
    drop locked rest <|
      if m.letsGo view then
        let left := drop locked composer m
        drop (locked.filter (· != .view view)) listeners <|
          (left.inputsIn locked view).foldl (fun m target ↦ m.refuse target) (left.dropView view)
      else m.dropView view

def newSource (name : String) (m : Machine α β) : Machine α β :=
  (m.withWorld (.addSource name)).returning (.created m.world.sources.length)

/-- What the user asks for, while it has control. A request to end a callback where none is at work
changes nothing. -/
def serve (request : Request α β) (m : Machine α β) : Machine α β :=
  match request with
  | .newSource name => m.newSource name
  | .emit source event => m.emit source event
  | .build sources composer => m.build sources composer
  | .subscribe target key => m.subscribe target key
  | .cancel handle owned => (m.returning .done).drop [] (.subscription handle owned .nothing)
  | .detach handle => (m.withWorld (.detach handle)).returning .done
  | .dispose view => (m.withWorld (.dispose view)).returning .done
  | .dropView view => (m.dropView view).returning .done
  | .enterTick => (m.withWorld .openTick).returning .done
  | .leaveTick => m.closeTick .done
  | .abandonTick => (m.withWorld .abandonTick).returning .done
  | .poll feed => m.feed feed
  | .finish =>
    match m.stack with
    | .calling (.sourceEvent _ _) _ :: stack => { m with stack, control := .returning .done }
    | .calling (.viewEvent _ _) _ :: stack => { m with stack, control := .returning .done }
    | _ => m
  | .compose value =>
    match m.stack with
    | .calling (.compose _ _) _ :: stack => { m with stack, control := .returning (.composed value) }
    | _ => m
  | .raise message =>
    match m.stack with
    | .calling _ _ :: stack => { m with stack, control := .unwinding message }
    | _ => m

/-- Submits a request. While the core acts, requests change nothing. -/
def submit (request : Request α β) (m : Machine α β) : Machine α β :=
  match m.control with
  | .user _ => m.serve request
  | _ => m

/-- One step of the core after something is done: what the frame on top does next. -/
def resume (answer : Answer α β) (m : Machine α β) : Machine α β :=
  match m.stack with
  | [] => m.answer answer
  | .calling _ _ :: _ => m.answer answer
  | .closing answer :: stack => { m with stack }.closeTick answer
  | .draining [] answer :: stack => { m with stack }.returning answer
  | .draining (view :: views) answer :: stack =>
    { m with stack := .draining views answer :: stack }.runDeferred view
  | .delivering _ _ [] :: stack => { m with stack }.returning .done
  | .delivering source event (ticket :: tickets) :: stack =>
    let m := { m with stack := .delivering source event tickets :: stack }
    match m.world.sourceListener? source ticket with
    | none => m.returning .done
    | some (.callback key) => m.call (.sourceEvent key event) (some (.source source, ticket))
    | some (.input view slot) => m.hear view slot event
  | .announcing _ _ [] :: stack => { m with stack }.returning .done
  | .announcing view event (ticket :: tickets) :: stack =>
    let m := { m with stack := .announcing view event tickets :: stack }
    match m.world.viewListener? view ticket with
    | none => m.returning .done
    | some key => m.call (.viewEvent key event) (some (.view view, ticket))
  | .failing view [] :: stack => { m with stack }.composeIfDue view
  | .failing view (error :: errors) :: stack =>
    ({ m with stack := .failing view errors :: stack }.push
      (.announcing view (.failed error) (m.world.viewTickets view))).returning .done
  | .composing view :: stack =>
    let m := { m with stack }.withWorld (.modifyView view fun v ↦ { v with lent := false })
    match answer with
    | .composed value => m.becomeReady view value
    | _ => m.settle view
  | .settling view :: stack => { m with stack }.settle view
  | .holding view :: stack => ({ m with stack }.release view).returning answer
  | .subscribing target ticket :: stack =>
    let handle := m.world.handles.length
    let m := { m with stack }.withWorld (.addHandle target ticket)
    let m := match target with
      | .view view => m.release view
      | .source _ => m
    m.returning (.subscribed handle)
  | .connecting view [] :: stack => { m with stack }.requestCompose view
  | .connecting view ((source, slot) :: inputs) :: stack =>
    { m with stack := .connecting view inputs :: stack }.connect view source slot
  | .building view :: stack =>
    ({ m with stack }.withWorld (.modifyView view fun v ↦ { v with owned := true })).returning
      (.built view)
  | .feeding rest :: stack =>
    let m := { m with stack }
    match answer with
    | .accepted accepted =>
      match rest.note accepted with
      | .inl result => m.returning (.polled (.finished result))
      | .inr rest => m.feed rest
    | _ => m.feed rest

/-- One step of the core while it gives operations up: what the frame on top leaves behind. -/
def giveUp (message : String) (m : Machine α β) : Machine α β :=
  match m.stack with
  | [] => m.tell (.raised message)
  | .calling _ _ :: _ => m.tell (.raised message)
  | .closing _ :: stack => { m with stack }.withWorld .abandonTick
  | .draining views _ :: stack => { m with stack }.withWorld (.unschedule views)
  | .composing view :: stack =>
    { m with stack }.withWorld (.modifyView view fun v ↦ { v with lent := false })
  | .holding view :: stack => { m with stack }.release view
  | .subscribing target ticket :: stack =>
    let m := { m with stack }.withWorld (.unregister target ticket)
    match target with
    | .view view => m.release view
    | .source _ => m
  | .building view :: stack => { m with stack }.release view
  | _ :: stack => { m with stack }

/-- One step of the core. While the user has control there is none. -/
def advance (m : Machine α β) : Machine α β :=
  match m.control with
  | .user _ => m
  | .returning answer => m.resume answer
  | .unwinding message => m.giveUp message

end Machine

end LiveRecord.Flow
