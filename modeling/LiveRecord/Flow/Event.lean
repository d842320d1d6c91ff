import LiveRecord.Value

/-!
What sources and views emit.

A source is pending until its value has arrived, then it has a newest value or a failure. A view
emits composed values and the failures of its inputs, and its status is the newest of them.
-/

set_option autoImplicit false

namespace LiveRecord.Flow

/-- A source that could not produce its value. -/
structure SourceError where
  source : String
  message : String
deriving DecidableEq, Repr

def SourceError.text (error : SourceError) : String :=
  "source '" ++ error.source ++ "' failed: " ++ error.message

/-- Whether a fetched value has arrived. -/
inductive Envelope (α : Type)
  | pending
  | loaded (value : α)
deriving DecidableEq, Repr

/-- An emission of a source. -/
inductive Event (α : Type)
  | pending
  | loaded (value : α)
  | failed (error : SourceError)
deriving DecidableEq, Repr

/-- An emission of a view. -/
inductive ViewEvent (β : Type)
  | ready (value : β)
  | failed (error : SourceError)
deriving DecidableEq, Repr

/-- What a view shows. It is pending while not every input has loaded. -/
inductive ViewStatus (β : Type)
  | pending
  | ready (value : β)
  | failed (error : SourceError)
deriving DecidableEq, Repr

namespace Envelope

variable {α : Type}

instance : Inhabited (Envelope α) := ⟨pending⟩

def value? : Envelope α → Option α
  | pending => none
  | loaded value => some value

def isLoaded (envelope : Envelope α) : Bool := envelope.value?.isSome

def toEvent : Envelope α → Event α
  | pending => .pending
  | loaded value => .loaded value

/-- The written form of an envelope. A pending one has no result. -/
def toValue (envelope : Envelope Value) : Value :=
  .ofPairs [("loaded", .bool envelope.isLoaded), ("result", envelope.value?.getD .null)]

end Envelope

namespace Event

variable {α : Type}

def value? : Event α → Option α
  | loaded value => some value
  | _ => none

def isLoaded (event : Event α) : Bool := event.value?.isSome

def isFailed : Event α → Bool
  | failed _ => true
  | _ => false

/-- Equality of events over an equality of values. -/
def sameBy (values : α → α → Bool) : Event α → Event α → Bool
  | pending, pending => true
  | loaded a, loaded b => values a b
  | failed a, failed b => a == b
  | _, _ => false

end Event

namespace ViewStatus

variable {β : Type}

def value? : ViewStatus β → Option β
  | ready value => some value
  | _ => none

def isReady (status : ViewStatus β) : Bool := status.value?.isSome

/-- The emission that led to the status. -/
def event? : ViewStatus β → Option (ViewEvent β)
  | pending => none
  | ready value => some (.ready value)
  | failed error => some (.failed error)

end ViewStatus

end LiveRecord.Flow
