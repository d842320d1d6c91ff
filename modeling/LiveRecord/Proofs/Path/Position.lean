import LiveRecord.Path.Basic

/-!
# Names and positions

The canonical digits of a number are those that `Nat.repr` writes (`Decimal.toDigits_of_read?`).
Therefore a segment has a position exactly where its name is the decimal form of a number of
sixty-four bits (`Segment.position?_eq_some_iff`), and the name of a segment says everything about
the place that it stands for. Two paths are apart if neither continues the other by names
(`Path.Apart`).
-/

set_option autoImplicit false

namespace LiveRecord

namespace Decimal

theorem digitChar_of_isDigit {c : Char} (h : c.isDigit) : (c.toNat - '0'.toNat).digitChar = c := by
  obtain ⟨hlow, hhigh⟩ := Char.isDigit_iff_toNat.mp h
  have hzero : '0'.toNat = 48 := rfl
  have hnine : '9'.toNat = 57 := rfl
  apply Char.toNat_inj.mp
  rw [Nat.toNat_digitChar_of_lt_ten (by omega)]
  omega

/-- More digits after a number that is not zero are more digits of its decimal form. -/
theorem toDigits_ofDigitChars {digits : List Char} {n : Nat} (hdigits : digits.all Char.isDigit)
    (hn : 0 < n) :
    Nat.toDigits 10 (Nat.ofDigitChars 10 digits n) = Nat.toDigits 10 n ++ digits := by
  induction digits generalizing n with
  | nil => simp
  | cons c rest ih =>
    rw [List.all_cons, Bool.and_eq_true] at hdigits
    obtain ⟨hc, hrest⟩ := hdigits
    have hsmall : c.toNat - '0'.toNat < 10 := by
      have hhigh : c.toNat ≤ 57 := (Char.isDigit_iff_toNat.mp hc).2
      have hzero : '0'.toNat = 48 := rfl
      omega
    rw [Nat.ofDigitChars_cons, ih hrest (by omega),
      ← Nat.toDigits_append_toDigits (by omega) hn hsmall, Nat.toDigits_of_lt_base hsmall,
      digitChar_of_isDigit hc, List.append_assoc, List.singleton_append]

theorem toDigits_of_read? {text : List Char} {n : Nat} (hcanonical : isCanonical text)
    (hread : read? text = some n) : Nat.toDigits 10 n = text := by
  rw [read?, Option.ite_none_right_eq_some] at hread
  obtain ⟨⟨hne, hdigits⟩, hn⟩ := hread
  obtain rfl := Option.some.inj hn
  match text with
  | [] => contradiction
  | c :: rest =>
    rw [List.all_cons, Bool.and_eq_true] at hdigits
    obtain ⟨hc, hrest⟩ := hdigits
    by_cases hzero : c = '0'
    case pos =>
      subst hzero
      cases rest with
      | nil => rfl
      | cons d rest => contradiction
    case neg =>
      obtain ⟨hlow, hhigh⟩ := Char.isDigit_iff_toNat.mp hc
      have hne : c.toNat ≠ '0'.toNat := fun h ↦ hzero (Char.toNat_inj.mp h)
      have hnine : '9'.toNat = 57 := rfl
      have hnought : '0'.toNat = 48 := rfl
      rw [Nat.ofDigitChars_cons, Nat.mul_zero, Nat.zero_add,
        toDigits_ofDigitChars hrest (by omega), Nat.toDigits_of_lt_base (by omega),
        digitChar_of_isDigit hc, List.singleton_append]

theorem read?_toDigits (n : Nat) : read? (Nat.toDigits 10 n) = some n := by
  have hdigits : (Nat.toDigits 10 n).all Char.isDigit :=
    List.all_eq_true.mpr fun c hc ↦ Nat.isDigit_of_mem_toDigits (by omega) (by omega) hc
  rw [read?, if_pos ⟨Nat.toDigits_ne_nil, hdigits⟩, Nat.ofDigitChars_ten_toDigits]

theorem head?_toDigits_ne_zero {n : Nat} (hn : 0 < n) : (Nat.toDigits 10 n).head? ≠ some '0' := by
  induction n using Nat.strongRecOn with
  | ind n ih =>
    by_cases hsmall : n < 10
    case pos =>
      rw [Nat.toDigits_of_lt_base hsmall, List.head?_cons, Ne, Option.some_inj, ← Char.toNat_inj,
        Nat.toNat_digitChar_of_lt_ten hsmall]
      have hzero : '0'.toNat = 48 := rfl
      omega
    case neg =>
      obtain ⟨c, rest, hfirst⟩ :=
        List.exists_cons_of_ne_nil (Nat.toDigits_ne_nil (n := n / 10) (b := 10))
      have hhead := ih (n / 10) (by omega) (by omega)
      rw [Nat.toDigits_of_base_le (by omega) (by omega)]
      rw [hfirst] at hhead ⊢
      exact hhead

theorem isCanonical_toDigits (n : Nat) : isCanonical (Nat.toDigits 10 n) := by
  by_cases hn : n = 0
  case pos =>
    subst hn
    rfl
  case neg =>
    have hhead := head?_toDigits_ne_zero (Nat.pos_of_ne_zero hn)
    unfold isCanonical
    split
    case h_1 c rest heq =>
      rw [heq] at hhead
      exact absurd rfl hhead
    case h_2 => rfl

/-- A decimal form has digits and nothing else. -/
theorem not_mem_toDigits {c : Char} (h : c.isDigit = false) (n : Nat) : c ∉ Nat.toDigits 10 n := by
  intro hmem
  rw [Nat.isDigit_of_mem_toDigits (by omega) (by omega) hmem] at h
  contradiction

/-- Different numbers have different decimal forms. -/
theorem eq_of_repr_eq {m n : Nat} (h : m.repr = n.repr) : m = n := by
  have hdigits : Nat.toDigits 10 m = Nat.toDigits 10 n := by
    simpa [Nat.repr_eq_ofList_toDigits] using congrArg String.toList h
  have hread := read?_toDigits m
  rw [hdigits, read?_toDigits] at hread
  exact (Option.some.inj hread).symm

end Decimal

namespace Segment

variable {a b : Segment} {n : Nat}

theorem position?_eq_some_iff (segment : Segment) (n : Nat) :
    segment.position? = some n ↔ n < Decimal.bound ∧ segment.fieldName = n.repr := by
  cases segment with
  | key name =>
    show (if _ then _ else _) = _ ↔ _ ∧ name = _
    rw [Option.ite_none_right_eq_some, Option.filter_eq_some_iff, decide_eq_true_iff,
      Nat.repr_eq_ofList_toDigits]
    constructor
    · rintro ⟨hcanonical, hread, hbound⟩
      refine ⟨hbound, ?_⟩
      rw [Decimal.toDigits_of_read? hcanonical hread, String.ofList_toList]
    · rintro ⟨hbound, rfl⟩
      rw [String.toList_ofList]
      exact ⟨Decimal.isCanonical_toDigits n, Decimal.read?_toDigits n, hbound⟩
  | index position =>
    show some position.toNat = some n ↔ _ ∧ position.toNat.repr = n.repr
    constructor
    · intro h
      obtain rfl := Option.some.inj h
      exact ⟨position.toNat_lt, rfl⟩
    · rintro ⟨-, hname⟩
      exact congrArg some (Decimal.eq_of_repr_eq hname)

theorem position?_congr (h : a.fieldName = b.fieldName) : a.position? = b.position? := by
  ext n
  rw [position?_eq_some_iff, position?_eq_some_iff, h]

theorem fieldName_eq_of_position? (ha : a.position? = some n) (hb : b.position? = some n) :
    a.fieldName = b.fieldName := by
  rw [position?_eq_some_iff] at ha hb
  rw [ha.2, hb.2]

end Segment

namespace Path

variable {a b : Segment} {p q : Path}

/-- The names of the places that a path leads through. -/
def names (path : Path) : List String := path.map Segment.fieldName

/-- Neither path continues the other. -/
def Apart (p q : Path) : Prop := ¬ p.names <+: q.names ∧ ¬ q.names <+: p.names

instance (p q : Path) : Decidable (p.Apart q) := inferInstanceAs (Decidable (_ ∧ _))

@[simp] theorem names_nil : names [] = [] := rfl

@[simp] theorem names_cons (a : Segment) (p : Path) : names (a :: p) = a.fieldName :: names p := rfl

theorem names_append (p q : Path) : names (p ++ q) = p.names ++ q.names := List.map_append

theorem Apart.symm (h : p.Apart q) : q.Apart p := And.symm h

theorem not_apart_nil : ¬ Apart [] q := fun h ↦ h.1 List.nil_prefix

theorem Apart.ne_nil (h : p.Apart q) : p ≠ [] := by
  rintro rfl
  exact not_apart_nil h

/-- Paths that begin alike are apart where they go on apart. -/
theorem Apart.tail (h : Apart (a :: p) (b :: q)) (hname : a.fieldName = b.fieldName) :
    p.Apart q := by
  simp only [Apart, names_cons, List.cons_prefix_cons, hname, true_and] at h
  exact h

/-- A path that another one continues by names is the names of a beginning of it. -/
theorem exists_eq_append_of_names (h : q.names <+: p.names) (hne : ¬ p.names <+: q.names) :
    ∃ (before : Path) (segment : Segment) (rest : Path),
      p = before ++ segment :: rest ∧ q.names = before.names := by
  obtain ⟨names, hnames⟩ := h
  obtain ⟨before, rest, rfl, hbefore, hrest⟩ := List.map_eq_append_iff.mp hnames.symm
  cases rest with
  | nil =>
    rw [List.append_nil] at hne
    exact absurd (hbefore ▸ List.prefix_refl _) hne
  | cons segment rest => exact ⟨before, segment, rest, rfl, hbefore.symm⟩

end Path

end LiveRecord
