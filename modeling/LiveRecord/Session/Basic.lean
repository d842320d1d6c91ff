import LiveRecord.Record.Write

/-!
Sessions: a loaded record that can be edited, and brought back to what it was.

A session is read-only until editing begins. Edits go straight into the record, and a snapshot keeps
the record as it was. Discarding the edits brings the snapshot back, and committing hands the record
over to be saved (`Session.Commit`).
-/

set_option autoImplicit false

namespace LiveRecord

inductive SessionState
  | readOnly
  | editing
  | committing
  | discarding
deriving DecidableEq, Repr

def SessionState.text : SessionState → String
  | readOnly => "read-only"
  | editing => "editing"
  | committing => "committing"
  | discarding => "discarding"

/-- What can be asked of a session. -/
inductive Operation
  | replace
  | begin
  | edit
  | discard
  | commit
deriving DecidableEq, Repr

def Operation.text : Operation → String
  | replace => "replace the record"
  | begin => "begin editing"
  | edit => "apply an edit"
  | discard => "discard"
  | commit => "commit"

/-- The state in which an operation is allowed. -/
def Operation.requires : Operation → SessionState
  | replace => .readOnly
  | begin => .readOnly
  | edit => .editing
  | discard => .editing
  | commit => .editing

/-- A record that could not be saved. -/
structure SaveError where
  message : String
deriving DecidableEq, Repr

def SaveError.text (error : SaveError) : String := "save failed: " ++ error.message

inductive EditError
  | invalidTransition (state : SessionState) (operation : Operation)
  | path (error : PathError)
  | saveFailed (error : SaveError)
deriving DecidableEq, Repr

def EditError.message : EditError → String
  | invalidTransition state operation => "cannot " ++ operation.text ++ " while " ++ state.text
  | path error => error.message
  | saveFailed error => error.text

/-- An edit that was applied. -/
structure FieldEdit where
  path : Path
  value : Value
deriving DecidableEq

structure Session where
  /-- The record with all edits. -/
  record : Value
  /-- The record as it was when editing began. -/
  snapshot : Option Value := none
  state : SessionState := .readOnly
  /-- The edits since editing began, in order. -/
  edits : List FieldEdit := []
  /-- The error of the newest commit that failed. -/
  lastSaveError : Option SaveError := none
  config : EditConfig := {}
deriving DecidableEq

namespace Session

/-- The error of an operation in a state that does not allow it. -/
def refusal (operation : Operation) (session : Session) : Option EditError :=
  if session.state = operation.requires then none
  else some (.invalidTransition session.state operation)

theorem refusal_of_state {operation : Operation} {session : Session}
    (h : session.state = operation.requires) : session.refusal operation = none := if_pos h

theorem refusal_of_state_ne {operation : Operation} {session : Session}
    (h : session.state ≠ operation.requires) :
    session.refusal operation = some (.invalidTransition session.state operation) := if_neg h

def isEditing (session : Session) : Bool := session.state == .editing

def isDirty (session : Session) : Bool := !session.edits.isEmpty

/-- Puts a newer copy of the record in its place. -/
def replace (record : Value) (session : Session) : Session × Option EditError :=
  match session.refusal .replace with
  | some error => (session, some error)
  | none => ({ session with record }, none)

def begin (session : Session) : Session × Option EditError :=
  match session.refusal .begin with
  | some error => (session, some error)
  | none => ({ session with snapshot := some session.record, state := .editing }, none)

/-- Writes a value at a path of the record, as it is given. -/
def edit (path : Path) (value : Value) (session : Session) : Session × Option EditError :=
  match session.refusal .edit with
  | some error => (session, some error)
  | none =>
    let (record, error) := Record.set session.config path value session.record
    match error with
    | some error => ({ session with record }, some (.path error))
    | none => ({ session with record, edits := session.edits ++ [{ path, value }] }, none)

/-- Writes a value at the path that the name of an input writes. -/
def input (field : String) (value : Value) (session : Session) : Session × Option EditError :=
  match session.refusal .edit with
  | some error => (session, some error)
  | none =>
    match Path.parse session.config.separator field with
    | .error error => (session, some (.path error))
    | .ok path => session.edit path value

/-- Throws the edits away. -/
def discard (session : Session) : Session × Option EditError :=
  match session.refusal .discard with
  | some error => (session, some error)
  | none =>
    ({ session with
        record := session.snapshot.getD session.record
        snapshot := none
        state := .readOnly
        edits := []
        lastSaveError := none }, none)

end Session

end LiveRecord
