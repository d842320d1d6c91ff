import LiveRecord.Decimal
import LiveRecord.Value

/-!
Paths: the places in a record, as lists of segments.

A segment is a key or an explicit index. It stands for a field by its name (`Segment.fieldName`) and
for a place in an array by its position (`Segment.position?`), which a key has where it is the
decimal form of a number of sixty-four bits. Paths are ordered segment by segment, a key before an
index and a path before its continuations.
-/

set_option autoImplicit false

namespace LiveRecord

inductive Segment
  | key (name : String)
  | index (position : UInt64)
deriving DecidableEq, Repr

namespace Segment

/-- The segment as the name of a field. -/
def fieldName : Segment → String
  | key name => name
  | index position => position.toNat.repr

/-- The segment as a position in an array. A key has one where it is a number in decimal digits
without a sign and without zeros in front. -/
def position? : Segment → Option Nat
  | key name =>
    if Decimal.isCanonical name.toList then
      (Decimal.read? name.toList).filter (· < Decimal.bound)
    else none
  | index position => some position.toNat

def display : Segment → String
  | key name => "." ++ name
  | index position => "[" ++ position.toNat.repr ++ "]"

/-- Keys come before indexes. Keys are ordered as strings and indexes as numbers. -/
def compare : Segment → Segment → Ordering
  | key a, key b => Ord.compare a b
  | key _, index _ => .lt
  | index _, key _ => .gt
  | index a, index b => Ord.compare a b

instance : Ord Segment := ⟨compare⟩

/-- A string is a key, and a whole number of sixty-four bits is an index. -/
def ofValue? : Value → Option Segment
  | .string name => some (key name)
  | .int n => if 0 ≤ n ∧ n < Decimal.bound then some (index n.toNat.toUInt64) else none
  | _ => none

def toValue : Segment → Value
  | key name => .string name
  | index position => .int position.toNat

end Segment

/-- A place in a record. The empty path is the record itself. -/
abbrev Path := List Segment

namespace Path

/-- The path as it is shown in messages. -/
def display (path : Path) : String := "$" ++ String.join (path.map Segment.display)

/-- Segment by segment, and a path before its continuations. -/
def compare : Path → Path → Ordering
  | [], [] => .eq
  | [], _ :: _ => .lt
  | _ :: _, [] => .gt
  | a :: as, b :: bs => (Ord.compare a b).then (compare as bs)

/-- Whether the second path is the first one or continues it. -/
def isPrefixOf (first second : Path) : Bool := List.isPrefixOf first second

/-- The paths in ascending order. -/
def sort (paths : List Path) : List Path :=
  paths.mergeSort fun a b ↦ (compare a b).isLE

/-- Why a value is no path. -/
inductive Refusal
  | notArray
  | badSegment
deriving DecidableEq, Repr

/-- A path is written as an array of its segments. -/
def ofValue : Value → Except Refusal Path
  | .array items =>
    match items.mapM Segment.ofValue? with
    | some path => .ok path
    | none => .error .badSegment
  | _ => .error .notArray

def toValue (path : Path) : Value := .array (path.map Segment.toValue)

end Path

end LiveRecord
