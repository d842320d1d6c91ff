/-!
Double-precision numbers, held by their bits, so that two of them can be told apart exactly and
printed without loss. `Double.same` is the equality of numbers, under which the two zeros are one.
-/

set_option autoImplicit false

namespace LiveRecord

/-- A double-precision number, by its sixty-four bits. -/
structure Double where
  bits : UInt64
deriving DecidableEq, Repr

namespace Double

def ofFloat (x : Float) : Double := ⟨x.toBits⟩

/-- The bits without the sign. -/
def magnitude (d : Double) : UInt64 := d.bits &&& 0x7fffffffffffffff

def isZero (d : Double) : Bool := d.magnitude == 0

/-- An exponent of ones with a fraction that is not zero is no number. -/
def isNaN (d : Double) : Bool := 0x7ff0000000000000 < d.magnitude

/-- Equality of numbers: the two zeros are one number, and what is no number equals nothing. -/
def same (a b : Double) : Bool := !a.isNaN && (a == b || (a.isZero && b.isZero))

def neg (d : Double) : Double := ⟨d.bits ^^^ 0x8000000000000000⟩

/-- The digit of one half byte. -/
def hexDigit (n : UInt64) : Char :=
  let k := n.toNat % 16
  Char.ofNat (if k < 10 then 48 + k else 87 + k)

/-- The bits as sixteen lower-case hexadecimal digits, the sign first. -/
def hex (d : Double) : String :=
  String.ofList ((List.range 16).map fun i ↦ hexDigit (d.bits >>> (60 - 4 * i).toUInt64))

example : hex ⟨0x3ff8000000000000⟩ = "3ff8000000000000" := by decide

example : same ⟨0⟩ ⟨0x8000000000000000⟩ = true := by decide

end Double

end LiveRecord
