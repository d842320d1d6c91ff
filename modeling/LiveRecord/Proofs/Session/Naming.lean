import LiveRecord.Proofs.Record.Naming
import LiveRecord.Session.Basic

/-!
# Edits by the names of inputs

The name of an input is a printed path, and no longer says which segments were indexes. Edits at
paths of the same names come to the same all the same: the same session but for the paths in its
journal, and the same answer but for the path in it (`Session.Alike`, `EditError.Alike`). So an
edit by name comes to the same as the edit at the path (`Session.alike_by_name`).
-/

set_option autoImplicit false

namespace LiveRecord

/-- The same error, but for the segments that spell the path in it. -/
inductive EditError.Alike : EditError → EditError → Prop
  | invalidTransition (state : SessionState) (operation : Operation) :
    Alike (.invalidTransition state operation) (.invalidTransition state operation)
  | path {first second : PathError} (h : first.Alike second) : Alike (.path first) (.path second)
  | saveFailed (error : SaveError) : Alike (.saveFailed error) (.saveFailed error)

theorem EditError.Alike.refl (error : EditError) : error.Alike error := by
  cases error with
  | invalidTransition state operation => exact .invalidTransition state operation
  | path error => exact .path (.refl error)
  | saveFailed error => exact .saveFailed error

/-- The same value at paths of the same names. -/
structure FieldEdit.Alike (first second : FieldEdit) : Prop where
  names : first.path.names = second.path.names
  value : first.value = second.value

namespace Session

/-- The same session, but for the segments that spell the paths of its edits. -/
structure Alike (first second : Session) : Prop where
  record : first.record = second.record
  snapshot : first.snapshot = second.snapshot
  state : first.state = second.state
  edits : List.Forall₂ FieldEdit.Alike first.edits second.edits
  lastSaveError : first.lastSaveError = second.lastSaveError
  config : first.config = second.config

variable {config : EditConfig} {p q path : Path} {value : Value}

theorem alike_edits (edits : List FieldEdit) : List.Forall₂ FieldEdit.Alike edits edits :=
  List.forall₂_same.mpr fun _ _ ↦ ⟨rfl, rfl⟩

theorem alike_edit (hpath : p.names = q.names) (value : Value) (session : Session) :
    (session.edit p value).1.Alike (session.edit q value).1 ∧
      Option.Rel EditError.Alike (session.edit p value).2 (session.edit q value).2 := by
  unfold edit
  cases session.refusal .edit with
  | some error =>
    exact ⟨⟨rfl, rfl, rfl, alike_edits session.edits, rfl, rfl⟩, .some (.refl error)⟩
  | none =>
    obtain ⟨hrecord, herror⟩ := Record.alike_set session.config hpath value session.record
    dsimp only
    generalize Record.set session.config p value session.record = first at hrecord herror ⊢
    generalize Record.set session.config q value session.record = second at hrecord herror ⊢
    obtain ⟨record, error⟩ := first
    obtain ⟨_, error'⟩ := second
    obtain rfl : record = _ := hrecord
    cases herror with
    | none =>
      refine ⟨⟨rfl, rfl, rfl, ?_, rfl, rfl⟩, .none⟩
      exact List.rel_append (alike_edits session.edits) (.cons ⟨hpath, rfl⟩ .nil)
    | some herror =>
      exact ⟨⟨rfl, rfl, rfl, alike_edits session.edits, rfl, rfl⟩, .some (.path herror)⟩

/-- Where a name is read as a path, an edit by the name is the edit at that path. -/
theorem input_of_parse {field : String} {session : Session}
    (hread : Path.parse session.config.separator field = .ok path) (value : Value) :
    session.input field value = session.edit path value := by
  unfold input
  rw [hread]
  cases hrefusal : session.refusal .edit with
  | some error => rw [edit, hrefusal]
  | none => rfl

/-- The name of an input, printed from a path, is as good as the path. A write by the name comes to
the same as the write at the path, the same value is found, and in every state of a session an edit
by the name comes to the same as the edit at the path. -/
theorem alike_by_name (hne : path ≠ []) (hprintable : path.Printable config.separator) :
    (∀ value record,
      Record.Alike (Record.setField config (path.dotted config.separator) value record)
        (Record.set config path value record)) ∧
    (∃ read, Path.parse config.separator (path.dotted config.separator) = .ok read ∧
      ∀ record, Record.get? read record = Record.get? path record) ∧
    ∀ (session : Session) value, session.config = config →
      (session.input (path.dotted config.separator) value).1.Alike (session.edit path value).1 ∧
        Option.Rel EditError.Alike (session.input (path.dotted config.separator) value).2
          (session.edit path value).2 := by
  have hread := Path.parse_dotted hne hprintable
  refine ⟨Record.alike_setField hne hprintable, ⟨_, hread, ?_⟩, ?_⟩
  · intro record
    rw [Record.get?_congr (Path.names_keys path)]
  · rintro session value rfl
    rw [input_of_parse hread]
    exact alike_edit (Path.names_keys path) value session

/-- A write behind the end of an array, by a name that does not say that its number is an index. -/
theorem alike_by_name_behind_end :
    let config : EditConfig := { separator := '/' }
    let path : Path := [.key "tels", .index 1, .key "no"]
    let record : Value := .object [("tels", .array [.null])]
    let session : Session := { record, state := .editing, config }
    path ≠ [] ∧ path.Printable config.separator ∧ session.config = config ∧
      path.dotted config.separator = "tels/1/no" ∧
      session.edit path (.int 5) =
        (session, some (.path (.indexOutOfBounds [.key "tels", .index 1] 1 1))) ∧
      Record.Alike (Record.setField config "tels/1/no" (.int 5) record)
        (Record.set config path (.int 5) record) ∧
      (∃ read, Path.parse config.separator "tels/1/no" = .ok read ∧
        Record.get? read record = Record.get? path record) ∧
      (session.input "tels/1/no" (.int 5)).1.Alike (session.edit path (.int 5)).1 ∧
      Option.Rel EditError.Alike (session.input "tels/1/no" (.int 5)).2
        (session.edit path (.int 5)).2 := by
  intro config path record session
  have hne : path ≠ [] := List.cons_ne_nil _ _
  have hprintable : path.Printable config.separator := by decide
  have hname : path.dotted config.separator = "tels/1/no" := by decide +kernel
  obtain ⟨hwrites, ⟨read, hread, hfinds⟩, hedits⟩ := alike_by_name hne hprintable
  rw [hname] at hwrites hread hedits
  exact ⟨hne, hprintable, rfl, hname, by decide +kernel, hwrites _ _, ⟨read, hread, hfinds record⟩,
    hedits session _ rfl⟩

end Session

end LiveRecord
