import LiveRecord.Proofs.Record.Walk
import LiveRecord.Proofs.Session.Polling

/-!
# What becomes of a session

Whatever is done with a session (`Session.Action`), the session stays as it is or moves in one of
six ways (`Session.Moves`). A commit counts as a whole: it comes to what the save came to if it was
polled until then, and otherwise to nothing (`Session.session_commit`).
-/

set_option autoImplicit false

namespace LiveRecord.Session

/-- What can be done with a session. A commit is dropped after so many polls, if it has not finished
before. -/
inductive Action
  | begin
  | replace (record : Value)
  | edit (path : Path) (value : Value)
  | input (field : String) (value : Value)
  | discard
  | commit (saver : Saver) (polls : Nat)

/-- The session after an action, whether it was refused, failed or was done. -/
def perform (session : Session) : Action → Session
  | .begin => session.begin.1
  | .replace record => (session.replace record).1
  | .edit path value => (session.edit path value).1
  | .input field value => (session.input field value).1
  | .discard => session.discard.1
  | .commit saver polls => (session.commit saver polls).session

/-- The session after one action after the other. -/
def run (actions : List Action) (session : Session) : Session := actions.foldl perform session

/-- What can become of a session. -/
inductive Moves (session : Session) : Session → Prop
  | stays : Moves session session
  | replaced (record : Value) (hstate : session.state = .readOnly) :
    Moves session { session with record }
  | begun (hstate : session.state = .readOnly) :
    Moves session { session with snapshot := some session.record, state := .editing }
  | edited {path : Path} {value record : Value} (hstate : session.state = .editing)
    (hset : Record.set session.config path value session.record = (record, none)) :
    Moves session { session with record, edits := session.edits ++ [{ path, value }] }
  | discarded (hstate : session.state = .editing) :
    Moves session
      { session with
        record := session.snapshot.getD session.record
        snapshot := none
        state := .readOnly
        edits := []
        lastSaveError := none }
  | saved (hstate : session.state = .editing) :
    Moves session
      { session with state := .readOnly, snapshot := none, edits := [], lastSaveError := none }
  | unsaved (error : SaveError) (hstate : session.state = .editing) :
    Moves session { session with lastSaveError := some error }

variable {session : Session}

/-! ### Commits -/

/-- A commit comes to what the save came to, or to nothing if it was refused or dropped before. -/
theorem session_commit (saver : Saver) (limit : Nat) (session : Session) :
    (session.commit saver limit).session =
      if session.state = .editing ∧ saver.waits session.record < limit then
        (session.settleCommit (saver.outcome session.record)).1
      else session := by
  by_cases hstate : session.state = .editing
  case neg =>
    rw [if_neg fun h ↦ hstate h.1]
    rcases Nat.eq_zero_or_pos limit with rfl | hlimit
    · rfl
    · rw [commit_of_not_editing saver hlimit hstate]
  case pos =>
    rcases Nat.lt_or_ge (saver.waits session.record) limit with hended | hdropped
    · rw [if_pos ⟨hstate, hended⟩, commit_of_ended saver hstate hended]
    · rw [if_neg fun h ↦ Nat.not_lt.mpr hdropped h.2]
      rcases Nat.eq_zero_or_pos limit with rfl | hlimit
      · rfl
      · rw [commit_of_dropped saver hlimit hstate hdropped]

/-! ### Edits -/

/-- An edit that is allowed writes into the record and adds itself to the journal, or it leaves the
session as it was. -/
theorem edit_of_editing (hstate : session.state = .editing) (path : Path) (value : Value) :
    (∃ record, Record.set session.config path value session.record = (record, none) ∧
      session.edit path value =
        ({ session with record, edits := session.edits ++ [{ path, value }] }, none)) ∨
    ∃ error, (Record.set session.config path value session.record).2 = some error ∧
      session.edit path value = (session, some (.path error)) := by
  rw [edit, refusal_of_state hstate]
  dsimp only
  cases hwritten : Record.set session.config path value session.record with
  | mk record error =>
    cases error with
    | none => exact .inl ⟨record, rfl, rfl⟩
    | some error =>
      have hrecord : record = session.record := by
        have hunchanged := Record.fst_set_of_error (congrArg Prod.snd hwritten)
        rwa [hwritten] at hunchanged
      subst hrecord
      exact .inr ⟨error, rfl, rfl⟩

/-! ### Every action is a move -/

theorem moves_edit (path : Path) (value : Value) (session : Session) :
    session.Moves (session.edit path value).1 := by
  by_cases hstate : session.state = .editing
  case neg =>
    rw [edit, refusal_of_state_ne hstate]
    exact .stays
  case pos =>
    rcases edit_of_editing hstate path value with ⟨record, hset, hedit⟩ | ⟨error, -, hedit⟩
    · rw [hedit]
      exact .edited hstate hset
    · rw [hedit]
      exact .stays

theorem moves_input (field : String) (value : Value) (session : Session) :
    session.Moves (session.input field value).1 := by
  unfold input
  split
  · exact .stays
  · split
    · exact .stays
    · exact moves_edit _ value session

theorem moves_commit (saver : Saver) (polls : Nat) (session : Session) :
    session.Moves (session.commit saver polls).session := by
  rw [session_commit]
  split
  case isTrue h =>
    cases saver.outcome session.record with
    | ok => exact .saved h.1
    | error error =>
      rw [settleCommit, ← h.1]
      exact .unsaved error h.1
  case isFalse => exact .stays

theorem moves_perform (action : Action) (session : Session) :
    session.Moves (session.perform action) := by
  cases action with
  | begin =>
    by_cases hstate : session.state = Operation.begin.requires
    · rw [perform, begin, refusal_of_state hstate]
      exact .begun hstate
    · rw [perform, begin, refusal_of_state_ne hstate]
      exact .stays
  | replace record =>
    by_cases hstate : session.state = Operation.replace.requires
    · rw [perform, replace, refusal_of_state hstate]
      exact .replaced record hstate
    · rw [perform, replace, refusal_of_state_ne hstate]
      exact .stays
  | edit path value => exact moves_edit path value session
  | input field value => exact moves_input field value session
  | discard =>
    by_cases hstate : session.state = Operation.discard.requires
    · rw [perform, discard, refusal_of_state hstate]
      exact .discarded hstate
    · rw [perform, discard, refusal_of_state_ne hstate]
      exact .stays
  | commit saver polls => exact moves_commit saver polls session

end LiveRecord.Session
