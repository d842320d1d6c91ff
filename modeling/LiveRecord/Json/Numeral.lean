import LiveRecord.Json.Scan
import LiveRecord.Value

/-!
Written numbers: their form, and the value that a form writes.

A whole number in the range of sixty-four bits, signed or unsigned, is an integer. Every other
number, and a negative zero, is a double. Of a long number only the leading digits that fit into
sixty-four bits count, and the double is their conversion scaled by a power of ten, so its last bit
need not be that of the nearest double.
-/

set_option autoImplicit false

namespace LiveRecord.Json

/-- A written number by its parts: the digits before the point, those after it, and the exponent
with whether it is negative. -/
structure Numeral where
  negative : Bool
  whole : List Char
  fraction : List Char
  exponent : Option (Bool × List Char)
deriving DecidableEq, Repr

namespace Numeral

/-- The digits at the front of a text, of which there must be one. A text that ends before it is
the fault `atEnd`. -/
def digits (atEnd : Fault) : List Char → Except Fault (List Char × List Char)
  | [] => .error atEnd
  | c :: text =>
    if c.isDigit then .ok (c :: text.takeWhile Char.isDigit, text.dropWhile Char.isDigit)
    else .error .malformed

/-- The digits before the point. A zero in front of other digits is refused. -/
def scanWhole (atEnd : Fault) (text : List Char) : Except Fault (List Char × List Char) :=
  match digits atEnd text with
  | .error fault => .error fault
  | .ok ('0' :: _ :: _, _) => .error .malformed
  | .ok found => .ok found

/-- The digits after a point, if there is a point. -/
def scanFraction (atEnd : Fault) : List Char → Except Fault (List Char × List Char)
  | '.' :: text => digits atEnd text
  | text => .ok ([], text)

/-- Whether a minus stands in front, and the text after the sign, if there is a sign. -/
def sign : List Char → Bool × List Char
  | '+' :: text => (false, text)
  | '-' :: text => (true, text)
  | text => (false, text)

/-- The exponent, if there is one: whether it is negative, and its digits. -/
def scanExponent (atEnd : Fault) (text : List Char) :
    Except Fault (Option (Bool × List Char) × List Char) :=
  match text with
  | [] => .ok (none, text)
  | c :: after =>
    if c = 'e' ∨ c = 'E' then
      match digits atEnd (sign after).2 with
      | .error fault => .error fault
      | .ok (found, rest) => .ok (some ((sign after).1, found), rest)
    else .ok (none, text)

/-- The parts after the leading minus. -/
def scanUnsigned (atEnd : Fault) (negative : Bool) (text : List Char) :
    Except Fault (Numeral × List Char) :=
  match scanWhole atEnd text with
  | .error fault => .error fault
  | .ok (whole, text) =>
    match scanFraction atEnd text with
    | .error fault => .error fault
    | .ok (fraction, text) =>
      match scanExponent atEnd text with
      | .error fault => .error fault
      | .ok (exponent, text) => .ok ({ negative, whole, fraction, exponent }, text)

/-- The number at the front of a text. -/
def scan (atEnd : Fault) : List Char → Except Fault (Numeral × List Char)
  | '-' :: text => scanUnsigned atEnd true text
  | text => scanUnsigned atEnd false text

theorem length_lt_of_digits {atEnd : Fault} {text found rest : List Char}
    (h : digits atEnd text = .ok (found, rest)) : rest.length < text.length := by
  cases text with
  | nil => simp [digits] at h
  | cons c text =>
    simp only [digits] at h
    split at h
    · simp only [Except.ok.injEq, Prod.mk.injEq] at h
      rw [← h.2, List.length_cons]
      exact Nat.lt_succ_of_le (length_dropWhile_le _ _)
    · simp at h

theorem length_lt_of_scanWhole {atEnd : Fault} {text found rest : List Char}
    (h : scanWhole atEnd text = .ok (found, rest)) : rest.length < text.length := by
  unfold scanWhole at h
  split at h
  · simp at h
  · simp at h
  case h_3 hdigits =>
    simp only [Except.ok.injEq] at h
    subst h
    exact length_lt_of_digits hdigits

theorem length_le_of_scanFraction {atEnd : Fault} {text found rest : List Char}
    (h : scanFraction atEnd text = .ok (found, rest)) : rest.length ≤ text.length := by
  unfold scanFraction at h
  split at h
  · exact Nat.le_succ_of_le (Nat.le_of_lt (length_lt_of_digits h))
  · simp_all

theorem length_sign_le (text : List Char) : (sign text).2.length ≤ text.length := by
  unfold sign
  split <;> simp

theorem length_le_of_scanExponent {atEnd : Fault} {text rest : List Char}
    {found : Option (Bool × List Char)} (h : scanExponent atEnd text = .ok (found, rest)) :
    rest.length ≤ text.length := by
  unfold scanExponent at h
  split at h
  · simp_all
  case h_2 c after =>
    split at h
    case isFalse => simp_all
    case isTrue =>
      split at h
      · simp at h
      case h_2 hdigits =>
        simp only [Except.ok.injEq, Prod.mk.injEq] at h
        have := length_lt_of_digits hdigits
        have := length_sign_le after
        rw [← h.2, List.length_cons]
        omega

theorem length_lt_of_scanUnsigned {atEnd : Fault} {negative : Bool} {text rest : List Char}
    {numeral : Numeral} (h : scanUnsigned atEnd negative text = .ok (numeral, rest)) :
    rest.length < text.length := by
  unfold scanUnsigned at h
  split at h
  · simp at h
  case h_2 hwhole =>
    split at h
    · simp at h
    case h_2 hfraction =>
      split at h
      · simp at h
      case h_2 hexponent =>
        simp only [Except.ok.injEq, Prod.mk.injEq] at h
        have := length_lt_of_scanWhole hwhole
        have := length_le_of_scanFraction hfraction
        have := length_le_of_scanExponent hexponent
        rw [← h.2]
        omega

theorem length_lt_of_scan {atEnd : Fault} {text rest : List Char} {numeral : Numeral}
    (h : scan atEnd text = .ok (numeral, rest)) : rest.length < text.length := by
  unfold scan at h
  split at h
  · exact Nat.lt_succ_of_lt (length_lt_of_scanUnsigned h)
  · exact length_lt_of_scanUnsigned h

/-- The significand after as many digits as fit into sixty-four bits, and the digits left over. -/
def accumulate (significand : Nat) : List Char → Nat × List Char
  | [] => (significand, [])
  | c :: rest =>
    let next := significand * 10 + (c.toNat - 48)
    if next < UInt64.size then accumulate next rest else (significand, c :: rest)

/-- The number that digits write. -/
def natural (digits : List Char) : Nat :=
  digits.foldl (fun n c ↦ n * 10 + (c.toNat - 48)) 0

def powerOfTen (n : Nat) : Float := Float.ofScientific 1 false n

/-- The double `x` times ten to the power `exponent`, rounded at each step, unless it is too great.
A power below the range is applied in steps of the smallest power there is. -/
def scale (x : Float) (exponent : Int) : Option Float :=
  if exponent.natAbs ≤ 308 then
    if 0 ≤ exponent then
      let y := x * powerOfTen exponent.natAbs
      if y.isInf then none else some y
    else some (x / powerOfTen exponent.natAbs)
  else if x == 0 then some x
  else if 0 ≤ exponent then none
  else scale (x / powerOfTen 308) (exponent + 308)
termination_by exponent.natAbs

/-- The greatest written exponent that is reckoned with. -/
def greatestExponent : Nat := 2147483647

/-- The double of a significand and an exponent, of which the part `shift` comes from the place of
the point. An exponent beyond the limit makes a zero of a negative one and of a zero significand. -/
def magnitude (significand : Nat) (shift : Int) (exponent : Option (Bool × List Char)) :
    Option Float :=
  let x := significand.toUInt64.toFloat
  match exponent with
  | none => scale x shift
  | some (negative, written) =>
    let size := natural written
    if size ≤ greatestExponent then scale x (if negative then shift - size else shift + size)
    else if significand ≠ 0 ∧ !negative then none
    else some 0

/-- The value of a written number, if it is in range. -/
def value (numeral : Numeral) : Option Value :=
  let (significand, left) := accumulate 0 numeral.whole
  if left = [] ∧ numeral.fraction = [] ∧ numeral.exponent = none ∧
      (numeral.negative → 0 < significand ∧ significand ≤ UInt64.size / 2) then
    some (.int (if numeral.negative then -(significand : Int) else significand))
  else
    let (significand', left') := accumulate significand numeral.fraction
    let shift := (left.length : Int) + (left'.length : Int) - (numeral.fraction.length : Int)
    (magnitude significand' shift numeral.exponent).map fun x ↦
      let d := Double.ofFloat x
      .float (if numeral.negative then d.neg else d)

end Numeral

end LiveRecord.Json
