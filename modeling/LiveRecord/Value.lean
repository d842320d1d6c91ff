import LiveRecord.Double
import LiveRecord.Fields

/-!
The values that a record is made of, their kinds, and two equalities.

`a = b` is identity, decided by `Value.decideEq`. `Value.same` is the coarser equality of values:
equal kinds with equal content, where an integer never equals a double and two doubles compare as
numbers. Both come from one recursion, `sameBy`, which takes the comparison of doubles.
-/

set_option autoImplicit false

namespace LiveRecord

inductive Value
  | null
  | bool (b : Bool)
  | int (n : Int)
  | float (d : Double)
  | string (s : String)
  | array (items : List Value)
  | object (fields : List (String × Value))

inductive Value.Kind
  | null
  | boolean
  | number
  | string
  | array
  | object
deriving DecidableEq, Repr

def Value.Kind.name : Kind → String
  | null => "null"
  | boolean => "boolean"
  | number => "number"
  | string => "string"
  | array => "array"
  | object => "object"

namespace Value

instance : Inhabited Value := ⟨null⟩

def kind : Value → Kind
  | null => .null
  | bool _ => .boolean
  | int _ => .number
  | float _ => .number
  | string _ => .string
  | array _ => .array
  | object _ => .object

def isNull : Value → Bool
  | null => true
  | _ => false

/-- The field of that name, of an object. -/
def field? (name : String) : Value → Option Value
  | object fields => Fields.find? name fields
  | _ => none

/-- The items of an array. -/
def items? : Value → Option (List Value)
  | array items => some items
  | _ => none

def text? : Value → Option String
  | string s => some s
  | _ => none

/-- An object from pairs in any order, of which the last one under a name counts. -/
def ofPairs (pairs : List (String × Value)) : Value :=
  object (Fields.ofPairs pairs)

/-- The object with nothing in it. -/
abbrev emptyObject : Value := object []

mutual

def sameBy (doubles : Double → Double → Bool) : Value → Value → Bool
  | null, null => true
  | bool a, bool b => a == b
  | int a, int b => a == b
  | float a, float b => doubles a b
  | string a, string b => a == b
  | array as, array bs => sameItemsBy doubles as bs
  | object as, object bs => sameFieldsBy doubles as bs
  | _, _ => false

def sameItemsBy (doubles : Double → Double → Bool) : List Value → List Value → Bool
  | [], [] => true
  | a :: as, b :: bs => sameBy doubles a b && sameItemsBy doubles as bs
  | _, _ => false

def sameFieldsBy (doubles : Double → Double → Bool) :
    List (String × Value) → List (String × Value) → Bool
  | [], [] => true
  | (j, a) :: as, (k, b) :: bs => j == k && sameBy doubles a b && sameFieldsBy doubles as bs
  | _, _ => false

end

/-- Equal kinds with equal content, doubles compared as numbers. -/
def same (a b : Value) : Bool := sameBy Double.same a b

mutual

theorem sameBy_eq_iff (a b : Value) : sameBy (· == ·) a b = true ↔ a = b := by
  cases a <;> cases b <;> simp [sameBy, sameItemsBy_eq_iff, sameFieldsBy_eq_iff]

theorem sameItemsBy_eq_iff (as bs : List Value) : sameItemsBy (· == ·) as bs = true ↔ as = bs := by
  cases as <;> cases bs <;> simp [sameItemsBy, sameBy_eq_iff, sameItemsBy_eq_iff]

theorem sameFieldsBy_eq_iff (as bs : List (String × Value)) :
    sameFieldsBy (· == ·) as bs = true ↔ as = bs := by
  match as, bs with
  | [], [] => simp [sameFieldsBy]
  | [], _ :: _ => simp [sameFieldsBy]
  | _ :: _, [] => simp [sameFieldsBy]
  | (j, a) :: as, (k, b) :: bs =>
    simp [sameFieldsBy, sameBy_eq_iff a b, sameFieldsBy_eq_iff as bs, and_assoc]

end

instance decideEq : DecidableEq Value := fun a b ↦ decidable_of_iff _ (sameBy_eq_iff a b)

example : same (int 1) (float ⟨0x3ff0000000000000⟩) = false := by decide

end Value

end LiveRecord
