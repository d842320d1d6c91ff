import LiveRecord.Flow.View

/-!
All sources, views and subscriptions together, with the ticks that are open.

Ids are places in lists that only grow, so an id is never given out twice. Events that arrive while
a tick is open update the views at once, but what they lead views to compose waits in `deferred`
until the outermost tick ends.

Tickets, emissions and open ticks are counted by natural numbers. The counters of a program wrap
around, or stop it, where they leave 64 bits, so what is said here of a run is said of one with fewer
than `2 ^ 64` operations.
-/

set_option autoImplicit false

namespace LiveRecord.Flow

inductive Target
  | source (source : SourceId)
  | view (view : ViewId)
deriving DecidableEq, Repr

/-- A subscription is active until it is cancelled. A detached one has no owner who could cancel it.
-/
inductive HandleState
  | active
  | cancelled
  | detached
deriving DecidableEq, Repr

/-- The handle of a subscription: where it is registered, and under which ticket. -/
structure Handle where
  target : Target
  ticket : Nat
  state : HandleState := .active
deriving DecidableEq, Repr

def Handle.isActive (handle : Handle) : Bool := handle.state == .active

structure World (α β : Type) where
  sources : List (Source α) := []
  views : List (View α β) := []
  handles : List Handle := []
  /-- The number of open ticks. -/
  depth : Nat := 0
  /-- The views that compose when the outermost tick ends, in this order. -/
  deferred : List ViewId := []
  /-- The sources of registrations that could not be taken out of their lists, once for each of
  them. Nobody calls them any more, but the source goes on to count them. -/
  stranded : List SourceId := []

namespace World

variable {α β : Type}

def inTick (world : World α β) : Bool := 0 < world.depth

def modifySource (source : SourceId) (f : Source α → Source α) (world : World α β) : World α β :=
  { world with sources := world.sources.modify source f }

def modifyView (view : ViewId) (f : View α β → View α β) (world : World α β) : World α β :=
  { world with views := world.views.modify view f }

def modifyHandle (handle : Nat) (f : Handle → Handle) (world : World α β) : World α β :=
  { world with handles := world.handles.modify handle f }

/-- A new source, under the id `world.sources.length`. -/
def addSource (name : String) (world : World α β) : World α β :=
  let source : Source α := { name }
  { world with sources := world.sources ++ [source] }

/-- A new view, under the id `world.views.length`. -/
def addView (view : View α β) (world : World α β) : World α β :=
  { world with views := world.views ++ [view] }

/-- A handle for a registration, under the id `world.handles.length`. -/
def addHandle (target : Target) (ticket : Nat) (world : World α β) : World α β :=
  let handle : Handle := { target, ticket }
  { world with handles := world.handles ++ [handle] }

/-- The view, unless it has been taken apart. -/
def liveView? (view : ViewId) (world : World α β) : Option (View α β) :=
  world.views[view]?.filter (·.live)

/-- The listener of a source under a ticket. -/
def sourceListener? (source : SourceId) (ticket : Nat) (world : World α β) : Option Listener :=
  world.sources[source]?.bind (·.listeners.find? ticket)

/-- The key of the listener of a view under a ticket. -/
def viewListener? (view : ViewId) (ticket : Nat) (world : World α β) : Option Nat :=
  world.views[view]?.bind (·.listeners.find? ticket)

/-- The tickets at a source, in order of registration. -/
def sourceTickets (source : SourceId) (world : World α β) : List Nat :=
  match world.sources[source]? with
  | some s => s.listeners.tickets
  | none => []

/-- The tickets at a view, in order of registration. -/
def viewTickets (view : ViewId) (world : World α β) : List Nat :=
  match world.views[view]? with
  | some v => v.listeners.tickets
  | none => []

/-- How many listeners a source counts. -/
def listenerCount (source : SourceId) (world : World α β) : Nat :=
  (world.sourceTickets source).length + world.stranded.count source

/-- Whether a registration stands in a list. The list of a view goes with the view. -/
def lists (target : Target) (ticket : Nat) (world : World α β) : Bool :=
  match target with
  | .source source => (world.sourceListener? source ticket).isSome
  | .view view => (world.liveView? view).any fun v ↦ (v.listeners.find? ticket).isSome

def registerAtSource (source : SourceId) (listener : Listener) : World α β → World α β :=
  modifySource source fun s ↦ { s with listeners := s.listeners.register listener }

def registerAtView (view : ViewId) (key : Nat) : World α β → World α β :=
  modifyView view fun v ↦ { v with listeners := v.listeners.register key }

/-- Takes a registration away. -/
def unregister (target : Target) (ticket : Nat) : World α β → World α β :=
  match target with
  | .source source => modifySource source fun s ↦ { s with listeners := s.listeners.remove ticket }
  | .view view => modifyView view fun v ↦ { v with listeners := v.listeners.remove ticket }

/-- A registration that is called no more stays in its list. Views do not count who hears them. -/
def strand (target : Target) (world : World α β) : World α β :=
  match target with
  | .source source => { world with stranded := source :: world.stranded }
  | .view _ => world

/-- Cancels a subscription that is active. -/
def cancel (handle : Nat) (world : World α β) : World α β :=
  match world.handles[handle]? with
  | some { target, ticket, state := .active } =>
    (world.unregister target ticket).modifyHandle handle fun h ↦ { h with state := .cancelled }
  | _ => world

/-- Leaves a subscription that is active to itself. -/
def detach (handle : Nat) : World α β → World α β :=
  modifyHandle handle fun h ↦
    match h.state with
    | .active => { h with state := .detached }
    | _ => h

/-- Unregisters a view from all its inputs. -/
def disconnect (view : ViewId) (world : World α β) : World α β :=
  match world.views[view]? with
  | none => world
  | some v =>
    (v.inputs.foldl (fun w input ↦ w.unregister (.source input.1) input.2) world).modifyView view
      fun v ↦ { v with inputs := [] }

/-- Disposes of a view: it hears its inputs no longer, and nobody hears it. -/
def dispose (view : ViewId) (world : World α β) : World α β :=
  match world.views[view]? with
  | none => world
  | some v =>
    if v.disposed then world
    else
      (world.disconnect view).modifyView view fun v ↦
        { v with disposed := true, listeners := v.listeners.clear, failures := [] }

/-- Takes a view apart that nobody holds any more. -/
def takeApart (view : ViewId) (world : World α β) : World α β :=
  (world.disconnect view).modifyView view fun v ↦ { v with live := false }

def openTick (world : World α β) : World α β := { world with depth := world.depth + 1 }

/-- Ends the innermost tick. The outermost one hands over what was deferred. -/
def closeTick (world : World α β) : List ViewId × World α β :=
  let depth := world.depth - 1
  if depth = 0 then (world.deferred, { world with depth, deferred := [] })
  else ([], { world with depth })

/-- These views are no longer waiting to compose. -/
def unschedule (views : List ViewId) (world : World α β) : World α β :=
  views.foldl (fun w view ↦ w.modifyView view fun v ↦ { v with scheduled := false }) world

/-- Ends the innermost tick because of a raise. What was deferred is dropped with the outermost. -/
def abandonTick (world : World α β) : World α β :=
  let (dropped, world) := world.closeTick
  world.unschedule dropped

/-- Puts a view on the list of those that compose when the outermost tick ends. -/
def schedule (view : ViewId) (world : World α β) : World α β :=
  { world with deferred := world.deferred ++ [view] }.modifyView view
    fun v ↦ { v with scheduled := true }

end World

end LiveRecord.Flow
