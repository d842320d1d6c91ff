import LiveRecord.Session.Commit

/-!
# Commits that are polled

A save is pending for as many polls as its store says and then ends as the store says, through
however many savers the record is handed on (`Save.takes_poll`), and the record is given away once
(`Save.given_poll`). So a commit comes to nothing if it is dropped before, and otherwise to what the
save came to (`Session.report_of_commit`).
-/

set_option autoImplicit false

namespace LiveRecord

namespace Save

/-- For how many more polls a save is pending. -/
def waits : Save → Nat
  | called saver record => saver.waits record
  | stored waits _ => waits
  | awaiting save => save.waits

/-- How a save will end. -/
def outcome : Save → Except SaveError Unit
  | called saver record => saver.outcome record
  | stored _ outcome => outcome
  | awaiting save => save.outcome

/-- The records that are still to be given away. -/
def owed : Save → List Value
  | called _ record => [record]
  | stored _ _ => []
  | awaiting save => save.owed

/-- What a poll comes to for a save that is pending for so many polls, this one counted, and then
ends in this way. -/
def Progress.Takes (waits : Nat) (outcome : Except SaveError Unit) : Progress → Prop
  | pending save => save.waits + 1 = waits ∧ save.outcome = outcome ∧ save.owed = []
  | finished result => waits = 0 ∧ result = outcome

theorem Progress.Takes.handedOn {waits : Nat} {outcome : Except SaveError Unit}
    {progress : Progress} (h : progress.Takes waits outcome) :
    progress.handedOn.Takes waits outcome := by
  cases progress with
  | pending save => exact h
  | finished result => exact h

theorem takes_pollStore (outcome : Except SaveError Unit) (waits : Nat) :
    (pollStore outcome waits).Takes waits outcome := by
  cases waits with
  | zero => exact ⟨rfl, rfl⟩
  | succ waits => exact ⟨rfl, rfl, rfl⟩

theorem takes_start (record : Value) (saver : Saver) :
    (start record saver).1.Takes (saver.waits record) (saver.outcome record) := by
  induction saver with
  | store waits outcome => exact takes_pollStore (outcome record) (waits record)
  | immediate outcome => exact ⟨rfl, rfl⟩
  | forward saver ih => exact ih.handedOn

theorem given_start (record : Value) (saver : Saver) : (start record saver).2 = [record] := by
  induction saver with
  | store waits outcome => rfl
  | immediate outcome => rfl
  | forward saver ih => exact ih

theorem takes_poll (save : Save) : save.poll.1.Takes save.waits save.outcome := by
  induction save with
  | called saver record => exact takes_start record saver
  | stored waits outcome => exact takes_pollStore outcome waits
  | awaiting save ih => exact ih.handedOn

theorem given_poll (save : Save) : save.poll.2 = save.owed := by
  induction save with
  | called saver record => exact given_start record saver
  | stored waits outcome => rfl
  | awaiting save ih => exact ih

end Save

namespace Session

variable {session : Session}

/-! ### A commit with a save under way -/

theorem pollSave_of_pending {save next : Save} (h : save.poll.1 = .pending next)
    (session : Session) : session.pollSave save = (session, .pending (.saving next), save.owed) := by
  have hpoll : save.poll = (.pending next, save.owed) := Prod.ext h (Save.given_poll save)
  rw [pollSave, hpoll]

theorem pollSave_of_finished {save : Save} {outcome : Except SaveError Unit}
    (h : save.poll.1 = .finished outcome) (session : Session) :
    session.pollSave save =
      ((session.settleCommit outcome).1, .finished (session.settleCommit outcome).2, save.owed) := by
  have hpoll : save.poll = (.finished outcome, save.owed) := Prod.ext h (Save.given_poll save)
  rw [pollSave, hpoll]

/-- A commit that is polled often enough ends with its save, and one that is dropped before leaves
the session editing. -/
theorem driveCommit_saving (saver : Saver) (save : Save) (limit : Nat) (session : Session) :
    session.driveCommit saver (.saving save) limit =
      if save.waits < limit then
        { session := (session.settleCommit save.outcome).1
          finished := some (session.settleCommit save.outcome).2
          polls := save.waits + 1
          saved := save.owed }
      else
        { session := { session with state := .editing }
          finished := none
          polls := limit
          saved := if limit = 0 then [] else save.owed } := by
  induction limit generalizing save with
  | zero => rfl
  | succ limit ih =>
    have htakes := Save.takes_poll save
    rw [driveCommit, pollCommit]
    cases hprogress : save.poll.1 with
    | finished outcome =>
      rw [hprogress] at htakes
      obtain ⟨hwaits, rfl⟩ := htakes
      rw [pollSave_of_finished hprogress, if_pos (by omega), hwaits]
    | pending next =>
      rw [hprogress] at htakes
      obtain ⟨hwaits, houtcome, howed⟩ := htakes
      rw [pollSave_of_pending hprogress]
      dsimp only
      rw [ih, houtcome, howed, ← hwaits, ite_self]
      by_cases hends : next.waits < limit
      · rw [if_pos hends, if_pos (Nat.succ_lt_succ hends), List.append_nil]
      · rw [if_neg hends, if_neg fun h ↦ hends (Nat.lt_of_succ_lt_succ h), List.append_nil,
          if_neg (Nat.succ_ne_zero limit)]

/-! ### A commit from its first poll on -/

/-- Where a commit ends, it does not matter that the session was committing. -/
theorem settleCommit_committing (outcome : Except SaveError Unit) (session : Session) :
    { session with state := .committing }.settleCommit outcome = session.settleCommit outcome := by
  cases outcome <;> rfl

/-- The first poll of a commit that is allowed is the first poll of its save. -/
theorem commit_of_editing (saver : Saver) {polls : Nat} (hpolls : 0 < polls)
    (hstate : session.state = .editing) :
    session.commit saver polls =
      { session with state := .committing }.driveCommit saver
        (.saving (.called saver session.record)) polls := by
  cases polls with
  | zero => contradiction
  | succ limit =>
    rw [commit, driveCommit, pollCommit, refusal_of_state hstate, driveCommit]
    rfl

theorem commit_of_not_editing (saver : Saver) {polls : Nat} (hpolls : 0 < polls)
    (hstate : session.state ≠ .editing) :
    session.commit saver polls =
      { session, finished := some (some (.invalidTransition session.state .commit)), polls := 1,
        saved := [] } := by
  cases polls with
  | zero => contradiction
  | succ limit => rw [commit, driveCommit, pollCommit, refusal_of_state_ne hstate]

/-- Assumes: the commit is dropped while its save is pending. -/
theorem commit_of_dropped (saver : Saver) {polls : Nat} (hpolls : 0 < polls)
    (hstate : session.state = .editing) (hdropped : polls ≤ saver.waits session.record) :
    session.commit saver polls =
      { session, finished := none, polls, saved := [session.record] } := by
  have hpending : ¬(Save.called saver session.record).waits < polls := Nat.not_lt.mpr hdropped
  rw [commit_of_editing saver hpolls hstate, driveCommit_saving, if_neg hpending,
    if_neg (Nat.ne_of_gt hpolls), Save.owed]
  -- the state that the commit gives back is the one that it was asked in
  dsimp only
  rw [← hstate]

/-- Assumes: the commit is polled until its save ends. -/
theorem commit_of_ended (saver : Saver) {polls : Nat} (hstate : session.state = .editing)
    (hended : saver.waits session.record < polls) :
    session.commit saver polls =
      { session := (session.settleCommit (saver.outcome session.record)).1
        finished := some (session.settleCommit (saver.outcome session.record)).2
        polls := saver.waits session.record + 1
        saved := [session.record] } := by
  have hends : (Save.called saver session.record).waits < polls := hended
  rw [commit_of_editing saver (Nat.zero_lt_of_lt hended) hstate, driveCommit_saving, if_pos hends,
    settleCommit_committing]
  rfl

/-- Savers that are pending for as long and end alike save alike. -/
theorem commit_congr (saver saver' : Saver)
    (hwaits : saver.waits session.record = saver'.waits session.record)
    (houtcome : saver.outcome session.record = saver'.outcome session.record) (polls : Nat) :
    session.commit saver polls = session.commit saver' polls := by
  rcases Nat.eq_zero_or_pos polls with rfl | hpolls
  · rfl
  · by_cases hstate : session.state = .editing
    case neg => rw [commit_of_not_editing _ hpolls hstate, commit_of_not_editing _ hpolls hstate]
    case pos =>
      rcases Nat.lt_or_ge (saver.waits session.record) polls with hended | hdropped
      · rw [commit_of_ended saver hstate hended, commit_of_ended saver' hstate (hwaits ▸ hended),
          hwaits, houtcome]
      · rw [commit_of_dropped saver hpolls hstate hdropped,
          commit_of_dropped saver' hpolls hstate (hwaits ▸ hdropped)]

/-- What a commit comes to. Before its first poll nothing happens, and a session that is not being
edited refuses it. Otherwise the record is given away once, to whoever saves it in the end. A commit
that is dropped while the save is pending leaves the session as it was; one that is polled until the
save ends leaves nothing to edit if the record was saved, and else the error. A saver that hands the
record on makes no difference, and a function is a store that is never pending. -/
theorem report_of_commit (saver : Saver) (polls : Nat) (session : Session) :
    (polls = 0 →
      session.commit saver polls = { session, finished := none, polls := 0, saved := [] }) ∧
    (0 < polls → session.state ≠ .editing →
      session.commit saver polls =
        { session, finished := some (some (.invalidTransition session.state .commit)), polls := 1,
          saved := [] }) ∧
    (0 < polls → session.state = .editing → polls ≤ saver.waits session.record →
      session.commit saver polls =
        { session, finished := none, polls, saved := [session.record] }) ∧
    (session.state = .editing → saver.waits session.record < polls →
      (saver.outcome session.record = .ok () →
        session.commit saver polls =
          { session :=
              { session with state := .readOnly, snapshot := none, edits := [], lastSaveError := none }
            finished := some none
            polls := saver.waits session.record + 1
            saved := [session.record] }) ∧
      ∀ error, saver.outcome session.record = .error error →
        session.commit saver polls =
          { session := { session with lastSaveError := some error }
            finished := some (some (.saveFailed error))
            polls := saver.waits session.record + 1
            saved := [session.record] }) ∧
    session.commit saver.forward polls = session.commit saver polls ∧
    ∀ outcome, session.commit (.immediate outcome) polls =
      session.commit (.store (fun _ ↦ 0) outcome) polls := by
  refine ⟨?_, commit_of_not_editing saver, commit_of_dropped saver, fun hstate hended ↦ ?_,
    commit_congr saver.forward saver rfl rfl polls, fun outcome ↦
      commit_congr (.immediate outcome) (.store (fun _ ↦ 0) outcome) rfl rfl polls⟩
  · rintro rfl
    rfl
  · rw [commit_of_ended saver hstate hended]
    refine ⟨fun houtcome ↦ ?_, fun error houtcome ↦ ?_⟩
    · rw [houtcome, settleCommit]
    · rw [houtcome, settleCommit, ← hstate]

/-- A session that is being edited, with an edit and an error of an earlier commit. -/
def edited : Session where
  record := .null
  snapshot := some (.bool true)
  state := .editing
  edits := [{ path := [], value := .null }]
  lastSaveError := some ⟨"timeout"⟩

/-- A commit that is handed on twice to a store that is pending for two polls. -/
theorem report_of_commit_handedOn :
    edited.commit (.forward (.forward (.accepting 2))) 3 =
      { session := { record := .null }, finished := some none, polls := 3, saved := [.null] } ∧
    edited.commit (.forward (.forward (.accepting 2))) 2 =
      { session := edited, finished := none, polls := 2, saved := [.null] } := by
  obtain ⟨-, -, -, hended, -⟩ := report_of_commit (.forward (.forward (.accepting 2))) 3 edited
  obtain ⟨-, -, hdropped, -⟩ := report_of_commit (.forward (.forward (.accepting 2))) 2 edited
  exact ⟨(hended rfl (by decide)).1 rfl, hdropped (by decide) rfl (by decide)⟩

end Session

end LiveRecord
