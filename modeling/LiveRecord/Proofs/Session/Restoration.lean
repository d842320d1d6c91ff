import LiveRecord.Proofs.Session.Journal

/-!
# Discarding brings back what was there

While a session is being edited, nothing that it is asked for touches its snapshot. So however long
editing goes on, and whatever is refused, fails or is dropped meanwhile, discarding the edits brings
back the session as it was before editing began (`Session.discard_run_begin`).
-/

set_option autoImplicit false

namespace LiveRecord.Session

/-- The action ends the editing of the session. -/
def Settles (session : Session) : Action → Prop
  | .discard => True
  | .commit saver polls => (session.commit saver polls).finished = some none
  | _ => False

instance (session : Session) : (action : Action) → Decidable (session.Settles action)
  | .discard => .isTrue trivial
  | .commit saver polls =>
    inferInstanceAs (Decidable ((session.commit saver polls).finished = some none))
  | .begin | .replace _ | .edit _ _ | .input _ _ => .isFalse id

/-- No action of the list ends the editing where it is done. -/
def Unsettled : List Action → Session → Prop
  | [], _ => True
  | action :: rest, session => ¬session.Settles action ∧ Unsettled rest (session.perform action)

instance : (actions : List Action) → (session : Session) → Decidable (Unsettled actions session)
  | [], _ => .isTrue trivial
  | action :: rest, session =>
    have := instDecidableUnsettled rest (session.perform action)
    inferInstanceAs (Decidable (¬session.Settles action ∧ Unsettled rest (session.perform action)))

/-- The session is being edited, and can go back to the original. -/
structure Restores (original session : Session) : Prop where
  state : session.state = .editing
  snapshot : session.snapshot = some original.record
  config : session.config = original.config

variable {config : EditConfig} {original session session' : Session}

theorem Moves.restores (hmoves : session.Moves session') (h : original.Restores session)
    (hstate : session'.state = .editing) : original.Restores session' := by
  cases hmoves with
  | stays => exact h
  | replaced record hidle => exact absurd (hidle.symm.trans h.state) (by decide)
  | begun hidle => exact absurd (hidle.symm.trans h.state) (by decide)
  | edited hediting hset => exact ⟨hstate, h.snapshot, h.config⟩
  | discarded hediting => contradiction
  | saved hediting => contradiction
  | unsaved error hediting => exact ⟨hstate, h.snapshot, h.config⟩

/-! ### Editing goes on -/

theorem state_edit (path : Path) (value : Value) (session : Session) :
    (session.edit path value).1.state = session.state := by
  unfold edit
  split
  · rfl
  · dsimp only
    split <;> rfl

theorem state_input (field : String) (value : Value) (session : Session) :
    (session.input field value).1.state = session.state := by
  unfold input
  split
  · rfl
  · split
    · rfl
    · exact state_edit _ value session

/-- A commit that does not succeed leaves the session editing. -/
theorem state_commit {saver : Saver} {polls : Nat} (hstate : session.state = .editing)
    (hfinished : (session.commit saver polls).finished ≠ some none) :
    (session.commit saver polls).session.state = .editing := by
  rcases Nat.lt_or_ge (saver.waits session.record) polls with hended | hdropped
  · rw [commit_of_ended saver hstate hended] at hfinished ⊢
    cases houtcome : saver.outcome session.record with
    | ok => simp [houtcome, settleCommit] at hfinished
    | error error => rfl
  · rcases Nat.eq_zero_or_pos polls with rfl | hpolls
    · exact hstate
    · rw [commit_of_dropped saver hpolls hstate hdropped]
      exact hstate

theorem state_perform {action : Action} (hstate : session.state = .editing)
    (hgoes : ¬session.Settles action) : (session.perform action).state = .editing := by
  cases action with
  | begin =>
    rw [perform, begin, refusal_of_state_ne (by rw [hstate]; decide)]
    exact hstate
  | replace record =>
    rw [perform, replace, refusal_of_state_ne (by rw [hstate]; decide)]
    exact hstate
  | edit path value => exact (state_edit path value session).trans hstate
  | input field value => exact (state_input field value session).trans hstate
  | discard => exact absurd trivial hgoes
  | commit saver polls => exact state_commit hstate hgoes

theorem Restores.run {actions : List Action} (h : original.Restores session)
    (hgoes : Unsettled actions session) : original.Restores (session.run actions) := by
  induction actions generalizing session with
  | nil => exact h
  | cons action rest ih =>
    exact ih ((moves_perform action session).restores h (state_perform h.state hgoes.1)) hgoes.2

/-! ### Back to the beginning -/

theorem begin_of_readOnly (hstate : session.state = .readOnly) :
    session.begin = ({ session with snapshot := some session.record, state := .editing }, none) := by
  rw [begin, refusal_of_state hstate]

/-- Assumes: an original that holds nothing but its record and its configuration. -/
theorem Restores.discard (h : original.Restores session) (hconsistent : original.Consistent config)
    (hidle : original.state = .readOnly) : session.discard = (original, none) := by
  obtain ⟨hedits, herror⟩ := hconsistent.idle hidle
  have hsnapshot : original.snapshot = none := by
    rw [← Option.not_isSome_iff_eq_none, hconsistent.snapshot, hidle]
    decide
  rw [Session.discard, refusal_of_state h.state, h.snapshot, h.config]
  obtain ⟨record, snapshot, state, edits, lastSaveError, config⟩ := original
  simp_all

/-- Editing begins in every session that is read-only, whatever has been done with it before, and
after any actions none of which ends the editing, discarding succeeds and gives back the session as
it was. -/
theorem discard_run_begin (config : EditConfig) (record : Value) (earlier actions : List Action)
    (hidle : (run earlier { record, config }).state = .readOnly)
    (hgoes : Unsettled actions (run earlier { record, config }).begin.1) :
    (run earlier { record, config }).begin.2 = none ∧
      (run actions (run earlier { record, config }).begin.1).discard =
        (run earlier { record, config }, none) := by
  have hconsistent := (consistent_start config record).run earlier
  generalize run earlier { record, config } = original at *
  rw [begin_of_readOnly hidle] at hgoes ⊢
  have hbegun : original.Restores
      { original with snapshot := some original.record, state := .editing } := ⟨rfl, rfl, rfl⟩
  exact ⟨rfl, (hbegun.run hgoes).discard hconsistent hidle⟩

/-- A record that is saved once, edited, refused by its store and left behind by a second commit. -/
theorem discard_run_begin_twice :
    let earlier : List Action := [.begin, .input "name" (.bool true), .commit (.accepting 1) 2]
    let actions : List Action := [.input "name" .null, .begin, .replace .null, .edit [] .null,
      .input "name.first" (.bool false), .commit (.refusing 0 ⟨"full"⟩) 1,
      .commit (.forward (.accepting 3)) 3]
    (run earlier { record := .null }).state = .readOnly ∧
      Unsettled actions (run earlier { record := .null }).begin.1 ∧
      (run actions (run earlier { record := .null }).begin.1).discard =
        (run earlier { record := .null }, none) := by
  intro earlier actions
  have hidle : (run earlier { record := .null }).state = .readOnly := by decide +kernel
  have hgoes : Unsettled actions (run earlier { record := .null }).begin.1 := by decide +kernel
  exact ⟨hidle, hgoes, (discard_run_begin {} .null earlier actions hidle hgoes).2⟩

end LiveRecord.Session
