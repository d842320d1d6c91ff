import LiveRecord.Proofs.Session.Outcome

/-!
# Refusals and failures

Every action is allowed in one state of the session (`Session.Action.allowedIn`). In every other one
it is refused, before its arguments are looked at. An action that is refused, or fails on account of
its path, leaves the session as it was, and an edit that succeeds puts its value into the record and
one entry into the journal (`Session.Comes`, `Session.atomic_of_answer`).
-/

set_option autoImplicit false

namespace LiveRecord.Session

namespace Action

/-- The state in which an action is allowed. -/
def allowedIn : Action → SessionState
  | .begin | .replace _ => .readOnly
  | .edit _ _ | .input _ _ | .discard | .commit _ _ => .editing

/-- What the session is asked for. -/
def operation : Action → Operation
  | .begin => .begin
  | .replace _ => .replace
  | .edit _ _ | .input _ _ => .edit
  | .discard => .discard
  | .commit _ _ => .commit

/-- Whether the session is asked at all. Nothing is, before the first poll of a commit. -/
def Asks : Action → Prop
  | .commit _ polls => 0 < polls
  | _ => True

/-- The edit that an action asks for: a value as it is given, at a path as it is given or as the
name of an input writes it. -/
def edit? (separator : Char) : Action → Option FieldEdit
  | .edit path value => some { path, value }
  | .input field value =>
    match Path.parse separator field with
    | .error _ => none
    | .ok path => some { path, value }
  | _ => none

theorem requires_operation (action : Action) : action.operation.requires = action.allowedIn := by
  cases action <;> rfl

end Action

/-- What an action answers: an error, or none where it is done. A commit that is dropped does not
answer. -/
def answer (session : Session) : Action → Option (Option EditError)
  | .begin => some session.begin.2
  | .replace record => some (session.replace record).2
  | .edit path value => some (session.edit path value).2
  | .input field value => some (session.input field value).2
  | .discard => some session.discard.2
  | .commit saver polls => (session.commit saver polls).finished

/-- The answers of an action, and what each of them leaves. -/
inductive Comes (session : Session) (action : Action) : Option (Option EditError) → Session → Prop
  | refused (hstate : session.state ≠ action.allowedIn) :
    Comes session action (some (some (.invalidTransition session.state action.operation))) session
  | obstructed (error : PathError) (hstate : session.state = action.allowedIn) :
    Comes session action (some (some (.path error))) session
  | unsaved (error : SaveError) (hstate : session.state = action.allowedIn) :
    Comes session action (some (some (.saveFailed error)))
      { session with lastSaveError := some error }
  | dropped (hstate : action.Asks → session.state = action.allowedIn) :
    Comes session action none session
  | edited {edit : FieldEdit} {record : Value} (hstate : session.state = action.allowedIn)
    (hedit : action.edit? session.config.separator = some edit)
    (hset : Record.set session.config edit.path edit.value session.record = (record, none)) :
    Comes session action (some none) { session with record, edits := session.edits ++ [edit] }
  | done (after : Session) (hstate : session.state = action.allowedIn)
    (hother : action.operation ≠ .edit) : Comes session action (some none) after

variable {session : Session} {action : Action}

/-! ### In the wrong state -/

/-- Where an action is not allowed, it is refused, whatever its arguments are. -/
theorem refused_of_state_ne (hasks : action.Asks) (hstate : session.state ≠ action.allowedIn) :
    session.answer action =
        some (some (.invalidTransition session.state action.operation)) ∧
      session.perform action = session := by
  have hrefusal : session.refusal action.operation =
      some (.invalidTransition session.state action.operation) := by
    refine refusal_of_state_ne ?_
    rwa [action.requires_operation]
  cases action with
  | commit saver polls =>
    rw [answer, perform, commit_of_not_editing saver hasks hstate]
    exact ⟨rfl, rfl⟩
  | _ =>
    -- all the others look at the state first and ask for the same refusal
    rw [Action.operation] at hrefusal
    simp only [answer, perform, begin, replace, edit, input, discard, hrefusal, Action.operation,
      and_self]

/-! ### In the right state -/

/-- Assumes: the action asks for that edit. -/
theorem comes_edit {path : Path} {value : Value} (hstate : session.state = .editing)
    (hallowed : action.allowedIn = .editing)
    (hedit : action.edit? session.config.separator = some { path, value }) :
    session.Comes action (some (session.edit path value).2) (session.edit path value).1 := by
  have hstate' : session.state = action.allowedIn := hstate.trans hallowed.symm
  rcases edit_of_editing hstate path value with ⟨record, hset, hdone⟩ | ⟨error, -, hfailed⟩
  · rw [hdone]
    exact .edited hstate' hedit hset
  · rw [hfailed]
    exact .obstructed error hstate'

theorem comes_input (field : String) (value : Value) (hstate : session.state = .editing) :
    session.Comes (.input field value) (some (session.input field value).2)
      (session.input field value).1 := by
  rw [input, refusal_of_state hstate]
  dsimp only
  cases hread : Path.parse session.config.separator field with
  | error error => exact .obstructed error hstate
  | ok path => exact comes_edit hstate rfl (by rw [Action.edit?, hread])

theorem comes_commit (saver : Saver) {polls : Nat} (hpolls : 0 < polls)
    (hstate : session.state = .editing) :
    session.Comes (.commit saver polls) (session.commit saver polls).finished
      (session.commit saver polls).session := by
  rcases Nat.lt_or_ge (saver.waits session.record) polls with hended | hdropped
  · rw [commit_of_ended saver hstate hended]
    cases saver.outcome session.record with
    | ok => exact .done _ hstate (by simp [Action.operation])
    | error error =>
      rw [settleCommit, ← hstate]
      exact .unsaved error hstate
  · rw [commit_of_dropped saver hpolls hstate hdropped]
    exact .dropped fun _ ↦ hstate

theorem comes_of_state (hasks : action.Asks) (hstate : session.state = action.allowedIn) :
    session.Comes action (session.answer action) (session.perform action) := by
  cases action with
  | begin =>
    rw [answer, perform, begin, refusal_of_state hstate]
    exact .done _ hstate (by simp [Action.operation])
  | replace record =>
    rw [answer, perform, replace, refusal_of_state hstate]
    exact .done _ hstate (by simp [Action.operation])
  | edit path value => exact comes_edit hstate rfl rfl
  | input field value => exact comes_input field value hstate
  | discard =>
    rw [answer, perform, discard, refusal_of_state hstate]
    exact .done _ hstate (by simp [Action.operation])
  | commit saver polls => exact comes_commit saver hasks hstate

theorem comes_perform (action : Action) (session : Session) :
    session.Comes action (session.answer action) (session.perform action) := by
  by_cases hasks : action.Asks
  case neg =>
    cases action with
    | commit saver polls =>
      obtain rfl := Nat.eq_zero_of_not_pos hasks
      exact .dropped fun hpolls ↦ absurd hpolls hasks
    | _ => exact absurd trivial hasks
  case pos =>
    by_cases hstate : session.state = action.allowedIn
    · exact comes_of_state hasks hstate
    · obtain ⟨hanswer, hperform⟩ := refused_of_state_ne hasks hstate
      rw [hanswer, hperform]
      exact .refused hstate

/-- An action that is refused, or fails on account of its path, leaves the session as it was. It is
refused exactly where it is not allowed, and only where it is allowed is there an error of its path.
An edit that succeeds changes the record and the journal, which gets one entry with the path and the
value of the edit, and nothing else. -/
theorem atomic_of_answer (session : Session) (action : Action) :
    (∀ state operation,
      session.answer action = some (some (.invalidTransition state operation)) →
        session.state ≠ action.allowedIn ∧ session.perform action = session) ∧
    (∀ error, session.answer action = some (some (.path error)) →
      session.state = action.allowedIn ∧ session.perform action = session) ∧
    (action.Asks → session.state ≠ action.allowedIn →
      session.answer action =
        some (some (.invalidTransition session.state action.operation))) ∧
    (action.operation = .edit → session.answer action = some none →
      ∃ edit record, action.edit? session.config.separator = some edit ∧
        Record.set session.config edit.path edit.value session.record = (record, none) ∧
        session.perform action =
          { session with record, edits := session.edits ++ [edit] }) := by
  have hcomes := comes_perform action session
  refine ⟨fun state operation hanswer ↦ ?_, fun error hanswer ↦ ?_,
    fun hasks hstate ↦ (refused_of_state_ne hasks hstate).1, fun hedits hanswer ↦ ?_⟩
  all_goals
    rw [hanswer] at hcomes
    generalize session.perform action = after at hcomes ⊢
  · cases hcomes with
    | refused hstate => exact ⟨hstate, rfl⟩
  · cases hcomes with
    | obstructed _ hstate => exact ⟨hstate, rfl⟩
  · cases hcomes with
    | edited hstate hedit hset => exact ⟨_, _, hedit, hset, rfl⟩
    | done _ hstate hother => exact absurd hedits hother

/-- An edit at the empty path of a session that is not being edited, and in one that is, a name that
leads behind a text, and one that does not. -/
theorem atomic_of_answer_behind_text :
    let idle : Session := { record := .null }
    let editing : Session :=
      { record := .object [("name", .string "x")], snapshot := some .null, state := .editing }
    let obstacle : PathError := .typeMismatch [.key "name"] .string
    (idle.state ≠ (Action.edit [] .null).allowedIn ∧
      idle.answer (.edit [] .null) = some (some (.invalidTransition .readOnly .edit)) ∧
      idle.perform (.edit [] .null) = idle) ∧
    (editing.answer (.input "name.first" .null) = some (some (.path obstacle)) ∧
      editing.perform (.input "name.first" .null) = editing) ∧
    (editing.answer (.input "born" (.int 1990)) = some none ∧
      ∃ edit record, (Action.input "born" (.int 1990)).edit? '.' = some edit ∧
        Record.set {} edit.path edit.value editing.record = (record, none) ∧
        editing.perform (.input "born" (.int 1990)) =
          { editing with record, edits := [edit] }) := by
  intro idle editing obstacle
  obtain ⟨hunchanged, -, hrefused, -⟩ := atomic_of_answer idle (.edit [] .null)
  obtain ⟨-, hobstructed, -, -⟩ := atomic_of_answer editing (.input "name.first" .null)
  obtain ⟨-, -, -, hedited⟩ := atomic_of_answer editing (.input "born" (.int 1990))
  have hstate : idle.state ≠ (Action.edit [] .null).allowedIn := by decide
  have hanswer := hrefused trivial hstate
  have hpath : editing.answer (.input "name.first" .null) = some (some (.path obstacle)) := by
    decide +kernel
  have hdone : editing.answer (.input "born" (.int 1990)) = some none := by decide +kernel
  exact ⟨⟨hstate, hanswer, (hunchanged _ _ hanswer).2⟩, ⟨hpath, (hobstructed _ hpath).2⟩, hdone,
    hedited rfl hdone⟩

end LiveRecord.Session
