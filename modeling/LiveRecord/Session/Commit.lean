import LiveRecord.Record.Read
import LiveRecord.Session.Basic

/-!
Commits: handing the record of a session over to be saved, which can take a while.

A commit is polled until it has finished, and may be dropped before. Nothing happens before the
first poll. That poll starts the save; while the save is pending the session is committing, and a
commit that is dropped then leaves the session editing.
-/

set_option autoImplicit false

namespace LiveRecord

/-- How records are saved: by a store, which says for how many polls a save is pending and how it
ends, by a function that ends at once, or by another saver that the record is handed on to. -/
inductive Saver
  | store (waits : Value → Nat) (outcome : Value → Except SaveError Unit)
  | immediate (outcome : Value → Except SaveError Unit)
  | forward (saver : Saver)

namespace Saver

/-- For how many polls the save of a record is pending. -/
def waits : Saver → Value → Nat
  | store waits _ => waits
  | immediate _ => fun _ ↦ 0
  | forward saver => saver.waits

/-- How the save of a record ends. -/
def outcome : Saver → Value → Except SaveError Unit
  | store _ outcome => outcome
  | immediate outcome => outcome
  | forward saver => saver.outcome

/-- A saver that accepts every record. -/
def accepting (waits : Nat) : Saver := store (fun _ ↦ waits) fun _ ↦ .ok ()

/-- A saver that refuses records that have nothing, or null, at the place of a written path, and all
records where no place is written. -/
def demanding (waits : Nat) (error : SaveError) (place : String) : Saver :=
  store (fun _ ↦ waits) fun record ↦
    match Path.parse '.' place with
    | .error _ => .error error
    | .ok path =>
      match Record.get? path record with
      | none => .error error
      | some .null => .error error
      | some _ => .ok ()

/-- A saver that refuses every record. -/
def refusing (waits : Nat) (error : SaveError) : Saver :=
  store (fun _ ↦ waits) fun _ ↦ .error error

end Saver

/-- A save that has not ended: before its first poll, pending in a store, or waiting for the save
that the record was handed on to. -/
inductive Save
  | called (saver : Saver) (record : Value)
  | stored (waits : Nat) (outcome : Except SaveError Unit)
  | awaiting (save : Save)

/-- What a poll of a save comes to. -/
inductive Save.Progress
  | pending (save : Save)
  | finished (outcome : Except SaveError Unit)

namespace Save

/-- What a poll comes to for the save that waits for the polled one. -/
def Progress.handedOn : Progress → Progress
  | pending save => pending (awaiting save)
  | finished outcome => finished outcome

/-- A poll of a store that is pending for so many polls. -/
def pollStore (outcome : Except SaveError Unit) : Nat → Progress
  | 0 => .finished outcome
  | waits + 1 => .pending (stored waits outcome)

/-- The first poll of a save, and the records that the store or the function at the end is given. -/
def start (record : Value) : Saver → Progress × List Value
  | .store waits outcome => (pollStore (outcome record) (waits record), [record])
  | .immediate outcome => (.finished (outcome record), [record])
  | .forward saver =>
    let (progress, given) := start record saver
    (progress.handedOn, given)

/-- A poll of a save, and the records that are given away in it. -/
def poll : Save → Progress × List Value
  | called saver record => start record saver
  | stored waits outcome => (pollStore outcome waits, [])
  | awaiting save =>
    let (progress, given) := save.poll
    (progress.handedOn, given)

end Save

/-- A commit that has not finished: before its first poll, or with a save under way. -/
inductive Commit
  | fresh
  | saving (save : Save)

/-- What a poll comes to. -/
inductive Commit.Progress
  | pending (commit : Commit)
  | finished (error : Option EditError)

namespace Session

/-- Ends a commit as the save ended. -/
def settleCommit (session : Session) : Except SaveError Unit → Session × Option EditError
  | .ok () =>
    ({ session with state := .readOnly, snapshot := none, edits := [], lastSaveError := none },
      none)
  | .error error =>
    ({ session with state := .editing, lastSaveError := some error }, some (.saveFailed error))

/-- A poll of the save that a commit waits for. -/
def pollSave (save : Save) (session : Session) : Session × Commit.Progress × List Value :=
  match save.poll with
  | (.pending save, given) => (session, .pending (.saving save), given)
  | (.finished outcome, given) =>
    let (session, error) := session.settleCommit outcome
    (session, .finished error, given)

/-- A poll of a commit: the session afterwards, what came of it, and the records that were given away
to be saved in this poll. -/
def pollCommit (saver : Saver) (session : Session) :
    Commit → Session × Commit.Progress × List Value
  | .fresh =>
    match session.refusal .commit with
    | some error => (session, .finished (some error), [])
    | none => { session with state := .committing }.pollSave (.called saver session.record)
  | .saving save => session.pollSave save

/-- Drops a commit that has not finished. -/
def dropCommit (session : Session) : Commit → Session
  | .fresh => session
  | .saving _ => { session with state := .editing }

end Session

/-- What a commit came to that was polled a number of times at most: the session afterwards, the end
of the commit unless it was dropped before, the number of polls, and the records that were given
away to be saved. -/
structure Commit.Report where
  session : Session
  finished : Option (Option EditError)
  polls : Nat
  saved : List Value

namespace Session

/-- Polls a commit on from one of its stages, and drops it when the polls are used up. -/
def driveCommit (saver : Saver) (session : Session) (commit : Commit) : Nat → Commit.Report
  | 0 => { session := session.dropCommit commit, finished := none, polls := 0, saved := [] }
  | limit + 1 =>
    match session.pollCommit saver commit with
    | (session, .finished error, given) =>
      { session, finished := some error, polls := 1, saved := given }
    | (session, .pending commit, given) =>
      let report := driveCommit saver session commit limit
      { report with polls := report.polls + 1, saved := given ++ report.saved }

/-- Commits the session, with so many polls at most. -/
def commit (saver : Saver) (limit : Nat) (session : Session) : Commit.Report :=
  session.driveCommit saver .fresh limit

end Session

end LiveRecord
