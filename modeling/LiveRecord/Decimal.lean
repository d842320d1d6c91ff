/-!
Whole numbers written in decimal digits. Every text of digits can be read; `isCanonical` picks the
one that `Nat.repr` writes.
-/

set_option autoImplicit false

namespace LiveRecord.Decimal

/-- The numbers that fit into sixty-four bits are below this one. -/
def bound : Nat := UInt64.size

/-- The number that a text of digits writes, zeros in front allowed. -/
def read? (text : List Char) : Option Nat :=
  if text ≠ [] ∧ text.all Char.isDigit then some (Nat.ofDigitChars 10 text 0) else none

/-- No zero stands in front of other digits. -/
def isCanonical : List Char → Bool
  | '0' :: _ :: _ => false
  | _ => true

example : read? "007".toList = some 7 := by decide

example : read? "+7".toList = none := by decide

end LiveRecord.Decimal
