import LiveRecord.Record.Read
import LiveRecord.Path.Dotted

/-!
The inputs of a form over grouped lists.

A record can hold a list of groups, each with a list of items that have a label and a value. Every
item has one input, which is named by the path that a write to it takes.
-/

set_option autoImplicit false

namespace LiveRecord

/-- The names of the fields: the list of groups in the record, the list of items in a group, and the
label and the value in an item. -/
structure GroupLayout where
  groups : String
  items : String
  label : String
  value : String
deriving DecidableEq, Repr

/-- A layout is written as an object, or as an array of the four names. -/
def GroupLayout.ofValue? : Value → Option GroupLayout
  | .array [.string groups, .string items, .string label, .string value] =>
    some { groups, items, label, value }
  | .object fields => do
    let text (name : String) : Option String := (Fields.find? name fields).bind Value.text?
    return { groups := ← text "groups", items := ← text "items", label := ← text "label",
             value := ← text "value" }
  | _ => none

/-- One item and the path that its input writes to. -/
structure FieldBinding where
  label : String
  value : Value
  path : Path

namespace FieldBinding

/-- The name of the input in the form. -/
def inputName (binding : FieldBinding) : String := binding.path.dotted '.'

/-- Whether a value is worth showing where it cannot be edited. -/
def holdsValue : Value → Bool
  | .null => false
  | .bool b => b
  | .int n => n != 0
  | .float d => !d.isZero
  | .string s => s != ""
  | .array _ => true
  | .object _ => true

/-- An input is shown while it can be edited, and otherwise if it holds a value. -/
def visible (readOnly : Bool) (binding : FieldBinding) : Bool :=
  !readOnly || holdsValue binding.value

end FieldBinding

namespace Record

/-- The list under a field, empty where there is none. -/
def listField (name : String) (value : Value) : List Value :=
  ((value.field? name).bind Value.items?).getD []

def itemBinding (layout : GroupLayout) (group item : Nat) (value : Value) : FieldBinding where
  label := ((value.field? layout.label).bind Value.text?).getD ""
  value := (value.field? layout.value).getD .null
  path := [.key layout.groups, .index group.toUInt64, .key layout.items, .index item.toUInt64,
    .key layout.value]

def groupBindings (layout : GroupLayout) (group : Nat) (value : Value) : List FieldBinding :=
  (listField layout.items value).mapIdx fun item ↦ itemBinding layout group item

/-- The bindings of every item, group by group. -/
def bindings (layout : GroupLayout) (record : Value) : List (List FieldBinding) :=
  (listField layout.groups record).mapIdx fun group ↦ groupBindings layout group

end Record

end LiveRecord
