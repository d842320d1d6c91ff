import LiveRecord.Config.Basic
import LiveRecord.Path.Dotted

/-!
Writing a value into a record by path.

The walk goes along every segment but the last. An object gets a field that is missing, and a field
or an item that is null becomes an empty object. An array is only entered where an item stands; it
is never created, and it grows only by one item, at the last segment of the path. The answer holds
the record after the walk also where the walk met an obstruction.
-/

set_option autoImplicit false

namespace LiveRecord.Record

/-- What a walk finds in a slot: an empty object in place of null. -/
def entered (slot : Value) : Value := if slot.isNull then .emptyObject else slot

/-- Writes below a value that stands at the path `before`. The answer is the value afterwards, and
the obstruction if there was one. -/
def setBelow (config : EditConfig) (value : Value) :
    Path → Path → Value → Value × Option PathError
  | _, [], _ => (value, none)
  | before, segment :: rest, .object fields =>
    let name := segment.fieldName
    match rest with
    | [] => (.object (Fields.insert name value fields), none)
    | _ :: _ =>
      let slot := entered ((Fields.find? name fields).getD .null)
      let (after, error) := setBelow config value (before ++ [segment]) rest slot
      (.object (Fields.insert name after fields), error)
  | before, segment :: rest, .array items =>
    let here := before ++ [segment]
    match segment.position? with
    | none => (.array items, some (.keyOnSequence here segment.fieldName))
    | some position =>
      match rest with
      | [] =>
        if position < items.length then (.array (items.set position value), none)
        else if position = items.length ∧ config.appendAtEnd then (.array (items ++ [value]), none)
        else (.array items, some (.indexOutOfBounds here position items.length))
      | _ :: _ =>
        match items[position]? with
        | none => (.array items, some (.indexOutOfBounds here position items.length))
        | some item =>
          let (after, error) := setBelow config value here rest (entered item)
          (.array (items.set position after), error)
  | before, _ :: _, scalar => (scalar, some (.typeMismatch before scalar.kind))

/-- Writes a value at a path. The answer is the record afterwards, and the obstruction if there was
one. -/
def set (config : EditConfig) (path : Path) (value record : Value) : Value × Option PathError :=
  if path = [] then (record, some .emptyPath) else setBelow config value [] path record

/-- Writes a value at the path that a text writes. -/
def setField (config : EditConfig) (field : String) (value record : Value) :
    Value × Option PathError :=
  match Path.parse config.separator field with
  | .error error => (record, some error)
  | .ok path => set config path value record

end LiveRecord.Record
