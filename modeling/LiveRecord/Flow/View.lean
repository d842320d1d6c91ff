import LiveRecord.Flow.Event
import LiveRecord.Flow.Registry

/-!
Sources and views as data, and what one event does to one view.

A view keeps, for each of its inputs, the kind of the newest event and the newest loaded value. It
is `stale` while a loaded value has not been composed yet, `scheduled` while a composition waits for
the end of a tick, `composing` while it works through its news, and `dirty` if more news arrived
meanwhile.
-/

set_option autoImplicit false

namespace LiveRecord.Flow

abbrev SourceId := Nat

abbrev ViewId := Nat

/-- Who hears a source: a callback, known to its owner by `key`, or an input of a view. -/
inductive Listener
  | callback (key : Nat)
  | input (view : ViewId) (slot : Nat)
deriving DecidableEq, Repr

structure Source (α : Type) where
  name : String
  current : Event α := .pending
  listeners : Registry Listener := {}

inductive SlotStatus
  | pending
  | loaded
  | failed
deriving DecidableEq, Repr

/-- What a view knows of one input: the kind of its newest event and its newest loaded value. -/
structure Slot (α : Type) where
  status : SlotStatus := .pending
  cached : Option α := none

/-- How a view makes its value from those of its inputs: by a function, or by a callback that can
act on sources and views while it works. -/
inductive Composer (α β : Type)
  | direct (compose : List α → β)
  | callback (key : Nat)

structure View (α β : Type) where
  label : String
  composer : Composer α β
  slots : List (Slot α)
  /-- The registrations of the inputs: the source and the ticket there. -/
  inputs : List (SourceId × Nat) := []
  status : ViewStatus β := .pending
  listeners : Registry Nat := {}
  /-- Failures of inputs that have not been announced yet. -/
  failures : List SourceError := []
  stale : Bool := true
  scheduled : Bool := false
  composing : Bool := false
  dirty : Bool := false
  disposed : Bool := false
  /-- A composing callback is at work on the cached values, which cannot change meanwhile. -/
  lent : Bool := false
  emissions : Nat := 0
  /-- The owner has been given the view and has not dropped it. -/
  owned : Bool := false
  /-- The view has not been taken apart. -/
  live : Bool := true

namespace View

variable {α β : Type}

def allLoaded (view : View α β) : Bool := view.slots.all (·.status == .loaded)

/-- The newest loaded values, if every input has loaded at least once. -/
def cachedValues? (view : View α β) : Option (List α) := view.slots.mapM (·.cached)

/-- Keeps a value for an input. -/
def cache (slot : Nat) (value : α) (view : View α β) : View α β :=
  { view with slots := view.slots.modify slot fun s ↦ { s with cached := some value } }

def mark (slot : Nat) (status : SlotStatus) (view : View α β) : View α β :=
  { view with slots := view.slots.modify slot fun s ↦ { s with status } }

/-- Takes in an event of an input. A view that was disposed of keeps the value and nothing else. -/
def absorb (slot : Nat) (event : Event α) (view : View α β) : View α β :=
  let view := match event with
    | .loaded value => view.cache slot value
    | _ => view
  if view.disposed then view
  else
    match event with
    | .pending => view.mark slot .pending
    | .loaded _ => { view.mark slot .loaded with stale := true }
    | .failed error =>
      { view.mark slot .failed with
        status := .failed error
        failures := view.failures ++ [error] }

/-- Whether a value is due: there is news, and every input is loaded. -/
def isDue (view : View α β) : Bool := view.stale && view.allLoaded

/-- Takes a composed value in. -/
def becomeReady (value : β) (view : View α β) : View α β :=
  { view with status := .ready value, emissions := view.emissions + 1 }

end View

/-- The text by which views are named: the names of the sources with a plus between them. -/
def labelOf (names : List String) : String := "+".intercalate names

end LiveRecord.Flow
