import LiveRecord.Path.Dotted
import Mathlib.Data.List.Forall2
import Mathlib.Data.List.TakeWhile

/-!
# The grammar of written paths

A text that writes a path is pieces with separators between them (`Path.Writes`). A piece is a name
without brackets and any number of indexes in brackets behind it, not both of them empty
(`Path.WritesPiece`), and an index is digits with or without a plus in front (`Path.WritesIndex`).

The reader takes a text apart from the front, at every separator and at the first bracket that opens
or closes, and what it finds in each part is what the grammar says of that part. So a text is read
as the path that it writes, and refused as a whole if it writes none (`Path.parse_eq_iff_writes`).
-/

set_option autoImplicit false

namespace LiveRecord

namespace Decimal

/-- One or more digits, and the number that they write. -/
structure Writes (digits : List Char) (n : Nat) : Prop where
  ne_nil : digits ≠ []
  isDigit : ∀ c ∈ digits, c.isDigit
  value : Nat.ofDigitChars 10 digits 0 = n

theorem read?_eq_some_iff {digits : List Char} {n : Nat} :
    read? digits = some n ↔ Writes digits n := by
  rw [read?, Option.ite_none_right_eq_some, Option.some_inj, List.all_eq_true]
  exact ⟨fun ⟨⟨hne, hdigits⟩, hvalue⟩ ↦ ⟨hne, hdigits, hvalue⟩,
    fun ⟨hne, hdigits, hvalue⟩ ↦ ⟨⟨hne, hdigits⟩, hvalue⟩⟩

theorem Writes.not_mem {digits : List Char} {n : Nat} (h : Writes digits n) {c : Char}
    (hc : c.isDigit = false) : c ∉ digits := by
  intro hmem
  rw [h.isDigit c hmem] at hc
  contradiction

end Decimal

namespace Path

/-- Digits that write a number of sixty-four bits, with or without a plus in front. -/
inductive WritesIndex : List Char → UInt64 → Prop
  | plain {digits : List Char} {position : UInt64} (h : Decimal.Writes digits position.toNat) :
    WritesIndex digits position
  | plus {digits : List Char} {position : UInt64} (h : Decimal.Writes digits position.toNat) :
    WritesIndex ('+' :: digits) position

/-- Indexes in brackets, one behind the other. -/
inductive WritesSuffixes : List Char → List UInt64 → Prop
  | nil : WritesSuffixes [] []
  | cons {digits text : List Char} {position : UInt64} {positions : List UInt64}
    (hindex : WritesIndex digits position) (hrest : WritesSuffixes text positions) :
    WritesSuffixes ('[' :: (digits ++ ']' :: text)) (position :: positions)

/-- The key of that name. Nothing has the empty name. -/
def named (name : List Char) : Path := if name = [] then [] else [.key (String.ofList name)]

/-- A name without brackets and indexes behind it, not both of them empty. -/
inductive WritesPiece : List Char → Path → Prop
  | intro {name text : List Char} {positions : List UInt64} (hopen : '[' ∉ name)
    (hclose : ']' ∉ name) (hsuffixes : WritesSuffixes text positions)
    (hne : name ≠ [] ∨ positions ≠ []) :
    WritesPiece (name ++ text) (named name ++ positions.map .index)

/-- Pieces with separators between them, and no separator in any of them. -/
inductive Writes (separator : Char) : String → Path → Prop
  | intro {texts : List (List Char)} {parts : List Path} (hne : texts ≠ [])
    (hseparated : ∀ text ∈ texts, separator ∉ text)
    (hparts : List.Forall₂ WritesPiece texts parts) :
    Writes separator (String.ofList ([separator].intercalate texts)) parts.flatten

variable {separator : Char} {input : String} {text name digits : List Char} {position : UInt64}
  {positions : List UInt64} {path : Path}

/-! ### Indexes -/

theorem toUInt64_read?_eq_some_iff :
    ((Decimal.read? digits).filter (· < Decimal.bound)).map Nat.toUInt64 = some position ↔
      Decimal.Writes digits position.toNat := by
  rw [Option.map_eq_some_iff]
  constructor
  · rintro ⟨n, hread, rfl⟩
    rw [Option.filter_eq_some_iff, Decimal.read?_eq_some_iff, decide_eq_true_iff] at hread
    obtain ⟨hwrites, hbound⟩ := hread
    rwa [Nat.toUInt64, UInt64.toNat_ofNat_of_lt' hbound]
  · intro hwrites
    refine ⟨position.toNat, ?_, UInt64.ofNat_toNat⟩
    rw [Option.filter_eq_some_iff, Decimal.read?_eq_some_iff, decide_eq_true_iff]
    exact ⟨hwrites, position.toNat_lt⟩

theorem index?_eq_some_iff : index? digits = some position ↔ WritesIndex digits position := by
  unfold index?
  split
  case h_1 rest =>
    rw [toUInt64_read?_eq_some_iff]
    refine ⟨.plus, fun h ↦ ?_⟩
    cases h with
    | plain h => exact absurd List.mem_cons_self (h.not_mem rfl)
    | plus h => exact h
  case h_2 hsign =>
    rw [toUInt64_read?_eq_some_iff]
    refine ⟨.plain, fun h ↦ ?_⟩
    cases h with
    | plain h => exact h
    | plus h => exact absurd rfl (hsign _)

theorem WritesIndex.not_mem (h : WritesIndex digits position) : ']' ∉ digits := by
  cases h with
  | plain h => exact h.not_mem rfl
  | plus h => exact List.not_mem_cons_of_ne_of_not_mem (by decide) (h.not_mem rfl)

/-! ### Indexes in brackets

No index holds the bracket that ends it, and no name the bracket that ends it, so each of them is
read up to its end. -/

/-- Reading up to a character stops where that character stands first. -/
theorem takeWhile_bne_append {c : Char} {before : List Char} (hbefore : c ∉ before)
    (behind : List Char) (hbehind : ∀ d ∈ behind.head?, d = c) :
    (before ++ behind).takeWhile (· != c) = before ∧
      (before ++ behind).dropWhile (· != c) = behind := by
  have hall : ∀ d ∈ before, (d != c) = true := by
    intro d hd
    rw [bne_iff_ne]
    rintro rfl
    exact hbefore hd
  rw [List.takeWhile_append_of_pos hall, List.dropWhile_append_of_pos hall]
  cases behind with
  | nil => exact ⟨List.append_nil before, rfl⟩
  | cons d rest =>
    obtain rfl := hbehind d rfl
    rw [List.takeWhile_cons_of_neg (by simp), List.dropWhile_cons_of_neg (by simp)]
    exact ⟨List.append_nil before, rfl⟩

theorem suffixes_of_writes (h : WritesSuffixes text positions) :
    suffixes text = .ok (positions.map .index) := by
  induction h with
  | nil => rw [suffixes, List.map_nil]
  | @cons digits text position positions hindex hrest ih =>
    obtain ⟨hdigits, hclosed⟩ := takeWhile_bne_append hindex.not_mem (']' :: text) (by simp)
    rw [suffixes]
    simp only [hdigits, hclosed, List.cons_ne_nil, if_false, List.tail_cons,
      index?_eq_some_iff.mpr hindex, ih, List.map_cons]

theorem exists_writes_of_suffixes (h : suffixes text = .ok path) :
    ∃ positions, path = positions.map .index ∧ WritesSuffixes text positions := by
  fun_induction suffixes text generalizing path with
  | case1 =>
    obtain rfl := Except.ok.inj h
    exact ⟨[], rfl, .nil⟩
  | case2 | case3 | case4 | case6 => contradiction
  | case5 inside digits closed hclosed position hindex rest hrest =>
    rename_i ih
    -- what is not read as digits begins with the bracket that ends them
    obtain rfl := Except.ok.inj h
    obtain ⟨positions, rfl, hwrites⟩ := ih hrest
    have hinside : inside = digits ++ ']' :: closed.tail := by
      have hhead : closed.head hclosed = ']' := by
        simpa using List.head_dropWhile_not (· != ']') (l := inside) hclosed
      rw [← hhead, List.cons_head_tail, List.takeWhile_append_dropWhile]
    rw [hinside]
    exact ⟨position :: positions, rfl, .cons (index?_eq_some_iff.mp hindex) hwrites⟩

/-! ### Pieces -/

theorem WritesSuffixes.eq_nil_iff (h : WritesSuffixes text positions) :
    text = [] ↔ positions = [] := by
  cases h with
  | nil => exact ⟨fun _ ↦ rfl, fun _ ↦ rfl⟩
  | cons hindex hrest => exact ⟨nofun, nofun⟩

theorem WritesSuffixes.head? (h : WritesSuffixes text positions) : ∀ c ∈ text.head?, c = '[' := by
  cases h with
  | nil => exact nofun
  | cons hindex hrest => simp

theorem named_append (name : List Char) (path : Path) :
    named name ++ path = if name = [] then path else .key (String.ofList name) :: path := by
  unfold named
  split <;> rfl

theorem piece_of_writes (h : WritesPiece text path) : piece text = .ok path := by
  obtain @⟨name, text, positions, hopen, hclose, hsuffixes, hne⟩ := h
  obtain ⟨hname, htext⟩ := takeWhile_bne_append hopen text hsuffixes.head?
  have hne : name ++ text ≠ [] := by
    rwa [Ne, List.append_eq_nil_iff, hsuffixes.eq_nil_iff, not_and_or]
  simp only [piece, hname, htext]
  rw [if_neg hne, if_neg hclose, suffixes_of_writes hsuffixes, named_append]

theorem writes_of_piece (h : piece text = .ok path) : WritesPiece text path := by
  have hopen : '[' ∉ text.takeWhile (· != '[') := fun hmem ↦ by
    simpa using List.mem_takeWhile_imp hmem
  simp only [piece] at h
  split at h
  case isTrue => contradiction
  case isFalse hne =>
    split at h
    case isTrue => contradiction
    case isFalse hclose =>
      split at h
      case h_1 => contradiction
      case h_2 suffix hsuffix =>
        obtain rfl := Except.ok.inj h
        obtain ⟨positions, rfl, hwrites⟩ := exists_writes_of_suffixes hsuffix
        rw [← List.takeWhile_append_dropWhile (p := (· != '[')) (l := text),
          List.append_eq_nil_iff, hwrites.eq_nil_iff, not_and_or] at hne
        have hpiece := WritesPiece.intro hopen hclose hwrites hne
        rwa [List.takeWhile_append_dropWhile, named_append] at hpiece

/-! ### Pieces between separators -/

theorem WritesPiece.ne_nil (h : WritesPiece text path) : text ≠ [] := by
  rintro rfl
  have hpiece := piece_of_writes h
  contradiction

theorem pieces_eq_ok_iff {texts : List (List Char)} :
    pieces texts = .ok path ↔
      ∃ parts, parts.flatten = path ∧ List.Forall₂ WritesPiece texts parts := by
  induction texts generalizing path with
  | nil => simp [pieces]
  | cons text texts ih =>
    rw [pieces]
    constructor
    · intro h
      split at h
      case h_1 => contradiction
      case h_2 part hpart =>
        split at h
        case h_1 => contradiction
        case h_2 rest hrest =>
          obtain rfl := Except.ok.inj h
          obtain ⟨parts, rfl, hparts⟩ := ih.mp hrest
          exact ⟨part :: parts, rfl, .cons (writes_of_piece hpart) hparts⟩
    · rintro ⟨_, rfl, hparts⟩
      cases hparts with
      | cons hpart hparts =>
        rw [piece_of_writes hpart, ih.mpr ⟨_, rfl, hparts⟩]
        rfl

theorem not_mem_of_mem_splitOn {c : Char} (h : name ∈ text.splitOn c) : c ∉ name := by
  induction text generalizing name with
  | nil =>
    obtain rfl := List.mem_singleton.mp h
    exact List.not_mem_nil
  | cons d rest ih =>
    rw [List.splitOn_cons_eq_if_modifyHead] at h
    split at h
    case isTrue =>
      rcases List.mem_cons.mp h with rfl | hrest
      · exact List.not_mem_nil
      · exact ih hrest
    case isFalse hd =>
      obtain ⟨first, others, hsplit⟩ := List.exists_cons_of_ne_nil (List.splitOn_ne_nil c rest)
      rw [hsplit] at h ih
      rcases List.mem_cons.mp h with rfl | hothers
      · refine List.not_mem_cons_of_ne_of_not_mem ?_ (ih List.mem_cons_self)
        rintro rfl
        exact hd (beq_self_eq_true c)
      · exact ih (List.mem_cons_of_mem first hothers)

/-! ### Written paths -/

theorem writes_of_parse (h : parse separator input = .ok path) : Writes separator input path := by
  unfold parse at h
  split at h
  case isTrue => contradiction
  case isFalse =>
    split at h
    case h_1 => contradiction
    case h_2 hpieces =>
      obtain rfl := Except.ok.inj h
      obtain ⟨parts, rfl, hparts⟩ := pieces_eq_ok_iff.mp hpieces
      have hwrites := Writes.intro (List.splitOn_ne_nil separator input.toList)
        (fun text ↦ not_mem_of_mem_splitOn) hparts
      rwa [List.intercalate_splitOn, String.ofList_toList] at hwrites

theorem parse_of_writes (h : Writes separator input path) : parse separator input = .ok path := by
  obtain @⟨texts, parts, hne, hseparated, hparts⟩ := h
  have hsplit := List.splitOn_intercalate separator hseparated hne
  have hinput : String.ofList ([separator].intercalate texts) ≠ "" := by
    intro hempty
    rw [String.ofList_eq_empty_iff.mp hempty] at hsplit
    obtain rfl : texts = [[]] := hsplit.symm
    cases hparts with
    | cons hpart _ => exact hpart.ne_nil rfl
  rw [parse, if_neg hinput, String.toList_ofList, hsplit, pieces_eq_ok_iff.mpr ⟨parts, rfl, hparts⟩]

theorem parse_eq_ok_iff : parse separator input = .ok path ↔ Writes separator input path :=
  ⟨writes_of_parse, parse_of_writes⟩

theorem exists_unreadable_of_parse {error : PathError} (h : parse separator input = .error error)
    (hne : input ≠ "") : ∃ why, error = .unreadable input why := by
  rw [parse, if_neg hne] at h
  split at h
  case h_1 why _ => exact ⟨why, (Except.error.inj h).symm⟩
  case h_2 => contradiction

theorem parse_eq_emptyPath_iff : parse separator input = .error .emptyPath ↔ input = "" := by
  constructor
  · intro h
    by_contra hne
    obtain ⟨why, hunreadable⟩ := exists_unreadable_of_parse h hne
    contradiction
  · rintro rfl
    rfl

/-- A text is read as the path that it writes. A text that writes none is refused as a whole, and
the empty one as the empty path. -/
theorem parse_eq_iff_writes (separator : Char) (input : String) :
    (parse separator input = .error .emptyPath ↔ input = "") ∧
    (∀ path, parse separator input = .ok path ↔ Writes separator input path) ∧
    ((∃ why, parse separator input = .error (.unreadable input why)) ↔
      input ≠ "" ∧ ¬ ∃ path, Writes separator input path) := by
  refine ⟨parse_eq_emptyPath_iff, fun path ↦ parse_eq_ok_iff, ?_⟩
  constructor
  · rintro ⟨why, hrefused⟩
    constructor
    · intro hempty
      rw [parse_eq_emptyPath_iff.mpr hempty] at hrefused
      exact absurd (Except.error.inj hrefused) nofun
    · rintro ⟨path, hwrites⟩
      rw [parse_of_writes hwrites] at hrefused
      contradiction
  · rintro ⟨hne, hwrites⟩
    cases hparse : parse separator input with
    | ok path => exact absurd ⟨path, writes_of_parse hparse⟩ hwrites
    | error error =>
      obtain ⟨why, rfl⟩ := exists_unreadable_of_parse hparse hne
      exact ⟨why, rfl⟩

example : parse '0' "a[+10b[2]" = .error (.unreadable "a[+10b[2]" .unclosedBracket) := by cbv

example : parse '/' "a[+07]/[1][2]" =
    .ok [.key "a", .index 7, .index 1, .index 2] := by cbv

end Path

end LiveRecord
