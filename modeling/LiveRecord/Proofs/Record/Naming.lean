import LiveRecord.Proofs.Path.Printing
import LiveRecord.Proofs.Record.Place

/-!
# Writes at paths of the same names

A walk asks a segment for its name and its position only, and the position follows from the name.
So writes at paths of the same names come to the same record and meet the same obstruction, which
they describe by paths of the same names (`PathError.Alike`, `Record.alike_set`).
-/

set_option autoImplicit false

namespace LiveRecord

/-- The same error, but for the segments that spell the path in it. -/
inductive PathError.Alike : PathError → PathError → Prop
  | emptyPath : Alike .emptyPath .emptyPath
  | unreadable (input : String) (why : Path.Unreadable) :
    Alike (.unreadable input why) (.unreadable input why)
  | typeMismatch {p q : Path} (found : Value.Kind) (hnames : p.names = q.names) :
    Alike (.typeMismatch p found) (.typeMismatch q found)
  | indexOutOfBounds {p q : Path} (index length : Nat) (hnames : p.names = q.names) :
    Alike (.indexOutOfBounds p index length) (.indexOutOfBounds q index length)
  | keyOnSequence {p q : Path} (key : String) (hnames : p.names = q.names) :
    Alike (.keyOnSequence p key) (.keyOnSequence q key)

theorem PathError.Alike.refl (error : PathError) : error.Alike error := by
  cases error <;> constructor <;> rfl

namespace Record

/-- What two writes come to: the same record, and errors that are alike or none. -/
structure Alike (first second : Value × Option PathError) : Prop where
  record : first.1 = second.1
  error : Option.Rel PathError.Alike first.2 second.2

variable {config : EditConfig} {value : Value} {p q before before' : Path}

/-- Assumes: the two walks stand at paths of the same names. -/
theorem alike_setBelow (hbefore : before.names = before'.names) (hpath : p.names = q.names)
    (record : Value) :
    Alike (setBelow config value before p record) (setBelow config value before' q record) := by
  induction p generalizing q before before' record with
  | nil =>
    obtain rfl : q = [] := List.map_eq_nil_iff.mp hpath.symm
    exact ⟨rfl, .none⟩
  | cons a p ih =>
    obtain ⟨b, q, rfl, hname, hrest⟩ := List.map_eq_cons_iff.mp hpath.symm
    have hhere : Path.names (before ++ [a]) = Path.names (before' ++ [b]) := by
      rw [Path.names_append, Path.names_append, hbefore, Path.names_cons, Path.names_cons, hname]
    cases record with
    | object fields =>
      cases p with
      | nil =>
        obtain rfl : q = [] := List.map_eq_nil_iff.mp hrest
        rw [setBelow, setBelow, hname]
        exact ⟨rfl, .none⟩
      | cons next p =>
        obtain ⟨next', q, rfl, -, -⟩ := List.map_eq_cons_iff.mp hrest
        obtain ⟨hrecord, herror⟩ :=
          ih hhere hrest.symm (entered ((Fields.find? a.fieldName fields).getD .null))
        simp only [setBelow, hname]
        exact ⟨congrArg (Value.object <| Fields.insert a.fieldName · fields) hrecord, herror⟩
    | array items =>
      have hposition := Segment.position?_congr hname
      cases ha : a.position? with
      | none =>
        simp only [setBelow, hposition, ha, hname]
        exact ⟨rfl, .some (.keyOnSequence _ hhere)⟩
      | some position =>
        cases p with
        | nil =>
          obtain rfl : q = [] := List.map_eq_nil_iff.mp hrest
          simp only [setBelow, hposition, ha]
          split
          · exact ⟨rfl, .none⟩
          · split
            · exact ⟨rfl, .none⟩
            · exact ⟨rfl, .some (.indexOutOfBounds _ _ hhere)⟩
        | cons next p =>
          obtain ⟨next', q, rfl, -, -⟩ := List.map_eq_cons_iff.mp hrest
          simp only [setBelow, hposition, ha]
          cases items[position]? with
          | none => exact ⟨rfl, .some (.indexOutOfBounds _ _ hhere)⟩
          | some item =>
            obtain ⟨hrecord, herror⟩ := ih hhere hrest.symm (entered item)
            exact ⟨congrArg (Value.array <| items.set position ·) hrecord, herror⟩
    | _ => exact ⟨rfl, .some (.typeMismatch _ hbefore)⟩

theorem alike_set (config : EditConfig) (hpath : p.names = q.names) (value record : Value) :
    Alike (set config p value record) (set config q value record) := by
  by_cases hempty : p = []
  case pos =>
    subst hempty
    obtain rfl : q = [] := List.map_eq_nil_iff.mp hpath.symm
    exact ⟨rfl, .some .emptyPath⟩
  case neg =>
    have hempty' : q ≠ [] := by
      rintro rfl
      exact hempty (List.map_eq_nil_iff.mp hpath)
    rw [set, set, if_neg hempty, if_neg hempty']
    exact alike_setBelow rfl hpath record

/-- A write at a printed path comes to the same as the write at the path. -/
theorem alike_setField (hne : p ≠ []) (hprintable : p.Printable config.separator)
    (value record : Value) :
    Alike (setField config (p.dotted config.separator) value record)
      (set config p value record) := by
  rw [setField, Path.parse_dotted hne hprintable]
  exact alike_set config (Path.names_keys p) value record

end Record

end LiveRecord
