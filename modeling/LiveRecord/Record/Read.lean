import LiveRecord.Path.Basic

/-!
Reading a record by path. A segment is looked up in an object by its field name and in an array by
its position.
-/

set_option autoImplicit false

namespace LiveRecord.Record

/-- What stands one segment below a value. -/
def child? (segment : Segment) : Value → Option Value
  | .object fields => Fields.find? segment.fieldName fields
  | .array items => segment.position?.bind (items[·]?)
  | _ => none

/-- What stands at a path. -/
def get? : Path → Value → Option Value
  | [], value => some value
  | segment :: rest, value => (child? segment value).bind (get? rest)

@[simp] theorem get?_nil (value : Value) : get? [] value = some value := rfl

theorem get?_append (first second : Path) (value : Value) :
    get? (first ++ second) value = (get? first value).bind (get? second) := by
  induction first generalizing value with
  | nil => rfl
  | cons segment rest ih =>
    cases h : child? segment value with
    | none => simp [get?, h]
    | some below => simp [get?, h, ih]

end LiveRecord.Record
