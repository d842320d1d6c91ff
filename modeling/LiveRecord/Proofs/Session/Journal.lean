import LiveRecord.Proofs.Session.Outcome

/-!
# The journal of a session

A session that is being edited is its snapshot with the journal of its edits replayed on it, and a
session that is not holds no snapshot, no edits and no error (`Session.Consistent`). Every move
keeps this, so it holds after whatever is done with a session (`Session.consistent_run`).
-/

set_option autoImplicit false

namespace LiveRecord.Session

/-- The record after all the edits of a journal, in order, if each of them succeeds. -/
def replay (config : EditConfig) : List FieldEdit → Value → Option Value
  | [], record => some record
  | edit :: rest, record =>
    match Record.set config edit.path edit.value record with
    | (after, none) => replay config rest after
    | (_, some _) => none

/-- What holds of a session between two actions. -/
structure Consistent (config : EditConfig) (session : Session) : Prop where
  configured : session.config = config
  state : session.state = .readOnly ∨ session.state = .editing
  snapshot : session.snapshot.isSome ↔ session.state = .editing
  idle : session.state = .readOnly → session.edits = [] ∧ session.lastSaveError = none
  replayed : session.state = .editing → ∃ snapshot, session.snapshot = some snapshot ∧
    replay config session.edits snapshot = some session.record

variable {config : EditConfig} {session session' : Session}

theorem replay_concat (config : EditConfig) (edits : List FieldEdit) (edit : FieldEdit)
    (record : Value) :
    replay config (edits ++ [edit]) record =
      (replay config edits record).bind (replay config [edit]) := by
  induction edits generalizing record with
  | nil => rfl
  | cons first rest ih =>
    rw [List.cons_append, replay, replay]
    split
    · exact ih _
    · rfl

theorem replay_singleton {path : Path} {value record after : Value}
    (h : Record.set config path value record = (after, none)) :
    replay config [{ path, value }] record = some after := by
  rw [replay, h]
  rfl

theorem consistent_start (config : EditConfig) (record : Value) :
    ({ record, config } : Session).Consistent config where
  configured := rfl
  state := .inl rfl
  snapshot := by simp
  idle _ := ⟨rfl, rfl⟩
  replayed h := by contradiction

theorem Moves.consistent (hmoves : session.Moves session') (h : session.Consistent config) :
    session'.Consistent config := by
  cases hmoves with
  | stays => exact h
  | replaced record hstate =>
    refine { h with replayed := fun hediting ↦ ?_ }
    rw [hstate] at hediting
    contradiction
  | begun hstate =>
    obtain ⟨hedits, herror⟩ := h.idle hstate
    refine ⟨h.configured, .inr rfl, by simp, by simp, fun _ ↦ ⟨session.record, rfl, ?_⟩⟩
    rw [hedits]
    rfl
  | @edited path value record hstate hset =>
    obtain ⟨snapshot, hsnapshot, hreplayed⟩ := h.replayed hstate
    refine { h with
      idle := fun hidle ↦ ?_
      replayed := fun _ ↦ ⟨snapshot, hsnapshot, ?_⟩ }
    · rw [hstate] at hidle
      contradiction
    · rw [replay_concat, hreplayed, Option.bind_some, replay_singleton]
      rw [← h.configured, hset]
  | discarded hstate => exact ⟨h.configured, .inl rfl, by simp, fun _ ↦ ⟨rfl, rfl⟩, by simp⟩
  | saved hstate => exact ⟨h.configured, .inl rfl, by simp, fun _ ↦ ⟨rfl, rfl⟩, by simp⟩
  | unsaved error hstate =>
    refine { h with idle := fun hidle ↦ ?_ }
    rw [hstate] at hidle
    contradiction

theorem Consistent.run (h : session.Consistent config) (actions : List Action) :
    (session.run actions).Consistent config := by
  induction actions generalizing session with
  | nil => exact h
  | cons action rest ih => exact ih ((moves_perform action session).consistent h)

/-- A session on any record is consistent, whatever has been done with it. -/
theorem consistent_run (config : EditConfig) (record : Value) (actions : List Action) :
    (run actions { record, config }).Consistent config :=
  (consistent_start config record).run actions

end LiveRecord.Session
