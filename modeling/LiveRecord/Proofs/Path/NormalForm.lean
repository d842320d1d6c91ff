import LiveRecord.Proofs.Path.Printing

/-!
# Printed paths as normal forms

One path has many written forms: an index may have a plus or zeros in front. Printing what was read
picks one of them for all paths of the same names, in which every segment is a key
(`Path.normalForm_of_parse`).

What is printed can always be read again. The decimal form of a number ends every text of digits
that writes the number (`Decimal.Writes.isSuffix`), so a printed index has no character that its
written form does not have, and a separator that is a digit cannot come into it. Therefore the names
of a path that was read can stand as pieces (`Path.printable_of_parse`).
-/

set_option autoImplicit false

namespace LiveRecord

/-- Before the decimal form of a number, only zeros are written. -/
theorem Decimal.Writes.isSuffix {digits : List Char} {n : Nat} (h : Writes digits n) :
    Nat.toDigits 10 n <:+ digits := by
  induction digits with
  | nil => exact absurd rfl h.ne_nil
  | cons c rest ih =>
    by_cases hcanonical : isCanonical (c :: rest)
    case pos =>
      have hdigits := toDigits_of_read? hcanonical (read?_eq_some_iff.mpr h)
      exact ⟨[], by rw [List.nil_append, hdigits]⟩
    case neg =>
      obtain ⟨rfl, hrest⟩ : c = '0' ∧ rest ≠ [] := by
        unfold isCanonical at hcanonical
        split at hcanonical
        case h_1 d rest heq =>
          obtain ⟨rfl, rfl⟩ := List.cons.inj heq
          exact ⟨rfl, List.cons_ne_nil _ _⟩
        case h_2 => contradiction
      have hwrites : Writes rest n :=
        ⟨hrest, fun d hd ↦ h.isDigit d (List.mem_cons_of_mem _ hd), h.value⟩
      exact (ih hwrites).trans (List.suffix_cons _ _)

/-- A key that stands for the same place as a segment. -/
structure Segment.KeyFor (key segment : Segment) : Prop where
  isKey : ∃ name, key = .key name
  fieldName : key.fieldName = segment.fieldName
  position : key.position? = segment.position?

namespace Path

variable {separator : Char} {input : String} {text name digits : List Char} {part path : Path}
  {position : UInt64} {positions : List UInt64}

/-! ### Names that were read -/

theorem WritesIndex.mem_of_mem_toDigits (h : WritesIndex digits position) {c : Char}
    (hc : c ∈ Nat.toDigits 10 position.toNat) : c ∈ digits := by
  cases h with
  | plain h => exact h.isSuffix.subset hc
  | plus h => exact List.mem_cons_of_mem _ (h.isSuffix.subset hc)

theorem WritesSuffixes.mem_of_mem_toDigits (h : WritesSuffixes text positions)
    (hposition : position ∈ positions) {c : Char} (hc : c ∈ Nat.toDigits 10 position.toNat) :
    c ∈ text := by
  induction h with
  | nil => contradiction
  | @cons digits text first positions hindex hrest ih =>
    rcases List.mem_cons.mp hposition with rfl | hothers
    · simp [hindex.mem_of_mem_toDigits hc]
    · simp [ih hothers]

theorem WritesPiece.ne_nil_path (h : WritesPiece text part) : part ≠ [] := by
  obtain @⟨name, text, positions, hopen, hclose, hsuffixes, hne⟩ := h
  rw [Ne, List.append_eq_nil_iff, not_and_or, List.map_eq_nil_iff]
  refine hne.imp_left fun hname ↦ ?_
  rw [named, if_neg hname]
  exact List.cons_ne_nil _ _

theorem printable_append {p q : Path} :
    Printable separator (p ++ q) ↔ p.Printable separator ∧ q.Printable separator := by
  rw [Printable, names_append, List.forall_mem_append]
  rfl

theorem printable_named (hseparator : separator ∉ name) (hopen : '[' ∉ name) (hclose : ']' ∉ name) :
    (named name).Printable separator := by
  unfold named
  split
  case isTrue => exact List.forall_mem_nil _
  case isFalse hne =>
    rw [Printable, names_cons, names_nil, List.forall_mem_singleton, Segment.fieldName,
      String.toList_ofList, Ne, String.ofList_eq_empty_iff]
    exact ⟨hne, hseparator, hopen, hclose⟩

/-- The printed form of an index has digits and nothing else. -/
theorem printable_index
    (hseparator : ∀ position ∈ positions, separator ∉ Nat.toDigits 10 position.toNat) :
    Printable separator (positions.map .index) := by
  intro name hname
  obtain ⟨segment, hsegment, rfl⟩ := List.mem_map.mp hname
  obtain ⟨position, hposition, rfl⟩ := List.mem_map.mp hsegment
  rw [Segment.fieldName, Nat.repr_eq_ofList_toDigits, String.toList_ofList, Ne,
    String.ofList_eq_empty_iff]
  exact ⟨Nat.toDigits_ne_nil, hseparator position hposition, Decimal.not_mem_toDigits rfl _,
    Decimal.not_mem_toDigits rfl _⟩

/-- What a piece writes has no characters in its names that the piece has not. -/
theorem WritesPiece.printable (h : WritesPiece text part) (hseparator : separator ∉ text) :
    part.Printable separator := by
  obtain @⟨name, text, positions, hopen, hclose, hsuffixes, hne⟩ := h
  rw [List.mem_append, not_or] at hseparator
  refine printable_append.mpr ⟨printable_named hseparator.1 hopen hclose, printable_index ?_⟩
  exact fun position hposition hmem ↦
    hseparator.2 (hsuffixes.mem_of_mem_toDigits hposition hmem)

theorem printable_of_pieces {texts : List (List Char)} {parts : List Path}
    (hparts : List.Forall₂ WritesPiece texts parts)
    (hseparated : ∀ text ∈ texts, separator ∉ text) : Printable separator parts.flatten := by
  induction hparts with
  | nil => exact List.forall_mem_nil _
  | cons hpart _ ih =>
    obtain ⟨hfirst, hothers⟩ := List.forall_mem_cons.mp hseparated
    exact printable_append.mpr ⟨hpart.printable hfirst, ih hothers⟩

/-- The names of a path that was read can stand as pieces. -/
theorem printable_of_parse (h : parse separator input = .ok path) :
    path ≠ [] ∧ path.Printable separator := by
  obtain @⟨texts, parts, hne, hseparated, hparts⟩ := writes_of_parse h
  refine ⟨?_, printable_of_pieces hparts hseparated⟩
  cases hparts with
  | nil => contradiction
  | cons hpart _ => exact List.append_ne_nil_of_left_ne_nil hpart.ne_nil_path _

/-! ### Names as keys -/

theorem forall₂_keys (path : Path) : List.Forall₂ Segment.KeyFor path.keys path := by
  rw [keys, names, List.map_map, List.forall₂_map_left_iff, List.forall₂_same]
  exact fun segment _ ↦ ⟨⟨_, rfl⟩, rfl, Segment.position?_congr rfl⟩

theorem dotted_keys (separator : Char) (path : Path) :
    path.keys.dotted separator = path.dotted separator := by
  rw [dotted_eq, dotted_eq, names_keys]

theorem keys_eq_iff : path.keys = path ↔ ∀ position, .index position ∉ path := by
  rw [keys, names, List.map_map]
  constructor
  · intro hkeys position hmem
    rw [← hkeys] at hmem
    obtain ⟨segment, -, hsegment⟩ := List.mem_map.mp hmem
    contradiction
  · intro hnone
    refine (List.map_congr_left fun segment hsegment ↦ ?_).trans (List.map_id path)
    cases segment with
    | key name => rfl
    | index position => exact absurd hsegment (hnone position)

/-- What was read can be printed and read again, as keys for the same places in the same order. From
there on printing and reading change nothing. What is read again is the same path exactly if no
segment of it was an index. -/
theorem normalForm_of_parse (h : parse separator input = .ok path) :
    ∃ read, parse separator (path.dotted separator) = .ok read ∧
      read.length = path.length ∧ List.Forall₂ Segment.KeyFor read path ∧
      read.dotted separator = path.dotted separator ∧
      (read = path ↔ ∀ position, .index position ∉ path) := by
  obtain ⟨hne, hprintable⟩ := printable_of_parse h
  have hkeys := forall₂_keys path
  exact ⟨path.keys, parse_dotted hne hprintable, hkeys.length_eq, hkeys, dotted_keys separator path,
    keys_eq_iff⟩

/-- The separator is a digit, and the indexes have a plus and zeros in front. -/
theorem normalForm_of_parse_digit :
    let path : Path := [.key "a", .index 7, .key "b", .index 20, .index 0]
    parse '1' "a[+07]1b[0020][00]" = .ok path ∧ path.dotted '1' = "a171b12010" ∧
      ∃ read, parse '1' "a171b12010" = .ok read ∧ read.length = 5 ∧
        List.Forall₂ Segment.KeyFor read path ∧ read.dotted '1' = "a171b12010" ∧ read ≠ path := by
  intro path
  have hparse : parse '1' "a[+07]1b[0020][00]" = .ok path := by decide +kernel
  have hdotted : path.dotted '1' = "a171b12010" := by decide +kernel
  obtain ⟨read, hread, hlength, hkeys, hagain, hsame⟩ := normalForm_of_parse hparse
  rw [hdotted] at hread hagain
  refine ⟨hparse, hdotted, read, hread, hlength, hkeys, hagain, fun heq ↦ ?_⟩
  exact hsame.mp heq 7 (by decide)

end Path

end LiveRecord
