import LiveRecord.Proofs.Path.Grammar
import LiveRecord.Proofs.Path.Position

/-!
# Which names are numbers

A segment has the position `n` exactly where its name is the decimal form of `n`, so its name says
all about its position and its position all about its name. Here the texts that are no such form are
described for themselves (`Decimal.Unfit`), and these are the keys without a position
(`Segment.position?_key_eq_none_iff`). `Segment.position_by_name` puts it together.
-/

set_option autoImplicit false

namespace LiveRecord

namespace Decimal

/-- What keeps a text from being the decimal form of a number of sixty-four bits. -/
inductive Unfit : List Char → Prop
  | empty : Unfit []
  | signed {sign : Char} {rest : List Char} (hsign : sign = '+' ∨ sign = '-') :
    Unfit (sign :: rest)
  | padded {c : Char} {rest : List Char} : Unfit ('0' :: c :: rest)
  | nonAscii {text : List Char} {c : Char} (hmem : c ∈ text) (hc : 128 ≤ c.toNat) : Unfit text
  | noDigit {text : List Char} {c : Char} (hmem : c ∈ text) (hc : c.isDigit = false) : Unfit text
  | tooGreat {text : List Char} {n : Nat} (hwrites : Writes text n) (hn : bound ≤ n) : Unfit text

variable {text : List Char} {n : Nat}

/-- Reading a text settles the number that it writes. -/
theorem Writes.eq {m : Nat} (hm : Writes text m) (hn : Writes text n) : m = n :=
  hm.value.symm.trans hn.value

theorem writes_toDigits (n : Nat) : Writes (Nat.toDigits 10 n) n :=
  read?_eq_some_iff.mp (read?_toDigits n)

theorem isCanonical_eq_false_iff :
    isCanonical text = false ↔ ∃ c rest, text = '0' :: c :: rest := by
  unfold isCanonical
  split
  case h_1 c rest => exact ⟨fun _ ↦ ⟨c, rest, rfl⟩, fun _ ↦ rfl⟩
  case h_2 hne =>
    refine ⟨nofun, ?_⟩
    rintro ⟨c, rest, rfl⟩
    exact absurd rfl (hne c rest)

/-- The decimal form of a number of sixty-four bits is fit. -/
theorem not_unfit_toDigits (hn : n < bound) : ¬ Unfit (Nat.toDigits 10 n) := by
  have hwrites : Writes (Nat.toDigits 10 n) n := writes_toDigits n
  intro hunfit
  generalize htext : Nat.toDigits 10 n = text at hwrites hunfit
  cases hunfit with
  | empty => exact hwrites.ne_nil rfl
  | @signed sign rest hsign =>
    have hdigit := hwrites.isDigit sign List.mem_cons_self
    rcases hsign with rfl | rfl <;> contradiction
  | @padded c rest =>
    have hcanonical := isCanonical_toDigits n
    rw [htext, isCanonical_eq_false_iff.mpr ⟨c, rest, rfl⟩] at hcanonical
    contradiction
  | nonAscii hmem hc =>
    have hhigh := (Char.isDigit_iff_toNat.mp (hwrites.isDigit _ hmem)).2
    have hnine : '9'.toNat = 57 := rfl
    omega
  | noDigit hmem hc => exact hwrites.not_mem hc hmem
  | tooGreat hgreat hbound =>
    obtain rfl := hwrites.eq hgreat
    exact absurd hn (Nat.not_lt.mpr hbound)

/-- Digits in front of which no zero stands are the decimal form of the number that they write. -/
theorem eq_toDigits_of_not_unfit (h : ¬ Unfit text) : ∃ n < bound, text = Nat.toDigits 10 n := by
  have hdigits : ∀ c ∈ text, c.isDigit := by
    intro c hmem
    by_contra hc
    exact h (.noDigit hmem (Bool.eq_false_iff.mpr hc))
  have hwrites : Writes text (Nat.ofDigitChars 10 text 0) := by
    refine ⟨?_, hdigits, rfl⟩
    rintro rfl
    exact h .empty
  have hcanonical : isCanonical text := by
    by_contra hzero
    obtain ⟨c, rest, rfl⟩ := isCanonical_eq_false_iff.mp (Bool.eq_false_iff.mpr hzero)
    exact h .padded
  refine ⟨_, ?_, (toDigits_of_read? hcanonical (read?_eq_some_iff.mpr hwrites)).symm⟩
  by_contra hgreat
  exact h (.tooGreat hwrites (Nat.not_lt.mp hgreat))

theorem unfit_iff : Unfit text ↔ ¬ ∃ n < bound, text = Nat.toDigits 10 n := by
  constructor
  · rintro hunfit ⟨n, hn, rfl⟩
    exact not_unfit_toDigits hn hunfit
  · intro hform
    by_contra hfit
    exact hform (eq_toDigits_of_not_unfit hfit)

end Decimal

namespace Segment

theorem position?_key_eq_none_iff (name : String) :
    (key name).position? = none ↔ Decimal.Unfit name.toList := by
  have hform (n : Nat) : name = n.repr ↔ name.toList = Nat.toDigits 10 n := by
    rw [Nat.repr_eq_ofList_toDigits, String.ext_iff, String.toList_ofList]
  rw [Decimal.unfit_iff, Option.eq_none_iff_forall_ne_some, not_exists]
  refine forall_congr' fun n ↦ not_congr ?_
  rw [position?_eq_some_iff, ← hform]
  rfl

/-- The name of a segment says everything about its position, and its position about its name: it
has the position `n` exactly where its name is the decimal form of `n`, segments of one name have
one position, segments of one position have one name, and a key has no position exactly where its
name is unfit. -/
theorem position_by_name (a b : Segment) :
    (∀ n, n < Decimal.bound → (a.position? = some n ↔ a.fieldName = n.repr)) ∧
    (a.fieldName = b.fieldName → a.position? = b.position?) ∧
    (∀ n, a.position? = some n → b.position? = some n → a.fieldName = b.fieldName) ∧
    (∀ name, (key name).position? = none ↔ Decimal.Unfit name.toList) := by
  refine ⟨?_, position?_congr, fun n ↦ fieldName_eq_of_position?, position?_key_eq_none_iff⟩
  intro n hn
  rw [position?_eq_some_iff, and_iff_right hn]

example : (key "18446744073709551615").position? = some (Decimal.bound - 1) := by decide

example : (["", "+7", "-7", "007", "٧", "18446744073709551616"].map fun name ↦
    (key name).position?) = List.replicate 6 none := by decide

end Segment

end LiveRecord
