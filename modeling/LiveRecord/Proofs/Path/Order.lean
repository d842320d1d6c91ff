import LiveRecord.Path.Basic
import Mathlib.Tactic.Common

/-!
# The order of paths

Two segments are compared as strings, as numbers or by their kinds, and two paths segment by
segment. Both orders are total and tell different things apart, and keys come in the order of the
bytes that encode them (`Segment.compare_key_eq_lt_iff`).

A path comes before whatever continues it, and what lies between a path and a continuation of it
continues it too (`Path.isPrefixOf_of_between`). So the paths under one path stand side by side in a
list in ascending order (`Path.Sorted.exists_block`), and `Path.sort` makes such a list of any.
`Path.order_and_prefix` puts it together.
-/

set_option autoImplicit false

namespace LiveRecord

/-! ### Keys as bytes -/

/-- The bytes that encode a string. -/
def encoding (s : String) : List UInt8 := s.toList.flatMap String.utf8EncodeChar

theorem toByteArray_encoding (s : String) : (encoding s).toByteArray = s.toByteArray :=
  String.utf8Encode_toList

/-- The encodings of two characters part at a byte, and the lesser character has the lesser byte
there. -/
theorem utf8EncodeChar_append_lt {c d : Char} (h : c < d) (as bs : List UInt8) :
    String.utf8EncodeChar c ++ as < String.utf8EncodeChar d ++ bs := by
  have hlt : c.val.toNat < d.val.toNat := h
  have hc : c.val.toNat < 0x110000 := by
    rcases c.valid with hlow | ⟨-, hhigh⟩ <;> omega
  have hd : d.val.toNat < 0x110000 := by
    rcases d.valid with hlow | ⟨-, hhigh⟩ <;> omega
  -- one case for each pair of lengths, with the bytes as numbers
  simp only [String.utf8EncodeChar]
  split_ifs <;>
    simp (disch := omega) only [List.cons_append, List.nil_append, List.cons_lt_cons_iff,
      UInt8.lt_iff_toNat_lt, ← UInt8.toNat_inj, UInt8.toNat_ofNat', Nat.mod_eq_of_lt] <;>
    omega

theorem flatMap_utf8EncodeChar_lt {as bs : List Char} (h : as < bs) :
    as.flatMap String.utf8EncodeChar < bs.flatMap String.utf8EncodeChar := by
  induction h with
  | @nil d bs =>
    rw [List.flatMap_cons]
    obtain ⟨byte, rest, hbytes⟩ :=
      List.exists_cons_of_ne_nil (String.utf8EncodeChar_ne_nil (c := d))
    rw [hbytes]
    exact List.nil_lt_cons byte _
  | rel hlt => exact utf8EncodeChar_append_lt hlt _ _
  | cons _ ih => exact List.append_left_lt ih

theorem encoding_lt_iff (a b : String) : encoding a < encoding b ↔ a < b := by
  have hmono {a b : String} (h : a < b) : encoding a < encoding b :=
    flatMap_utf8EncodeChar_lt (String.lt_iff.mp h)
  refine ⟨fun h ↦ ?_, hmono⟩
  by_contra hab
  have hba : ¬ b < a := fun hgt ↦ List.lt_asymm h (hmono hgt)
  obtain rfl : a = b := String.le_antisymm (String.not_lt.mp hba) (String.not_lt.mp hab)
  exact List.lt_irrefl _ h

/-! ### Segments -/

namespace Segment

instance : Std.OrientedOrd Segment where
  eq_swap {a b} := by
    cases a <;> cases b
    case key.key => exact Std.OrientedOrd.eq_swap (α := String)
    case index.index => exact Std.OrientedOrd.eq_swap (α := UInt64)
    all_goals rfl

instance : Std.TransOrd Segment where
  isLE_trans {a b c} hab hbc := by
    cases a <;> cases b <;> cases c
    case key.key.key => exact Std.TransOrd.isLE_trans (α := String) hab hbc
    case index.index.index => exact Std.TransOrd.isLE_trans (α := UInt64) hab hbc
    all_goals first | rfl | contradiction

instance : Std.LawfulEqOrd Segment where
  compare_self {a} := by
    cases a
    case key => exact Std.ReflOrd.compare_self (α := String)
    case index => exact Std.ReflOrd.compare_self (α := UInt64)
  eq_of_compare {a b} h := by
    cases a <;> cases b
    case key.key => exact congrArg key (Std.LawfulEqOrd.eq_of_compare (α := String) h)
    case index.index => exact congrArg index (Std.LawfulEqOrd.eq_of_compare (α := UInt64) h)
    all_goals contradiction

/-- Keys are in the order of the bytes that encode them. -/
theorem compare_key_eq_lt_iff (a b : String) :
    (key a).compare (key b) = .lt ↔ encoding a < encoding b := by
  rw [encoding_lt_iff]
  show compareOfLessAndEq a b = .lt ↔ a < b
  unfold compareOfLessAndEq
  split_ifs <;> simp_all

end Segment

/-! ### Paths -/

namespace Path

variable {a b c p q : Path} {x y : Segment} {paths : List Path}

theorem compare_eq_compareLex : compare = List.compareLex (Ord.compare (α := Segment)) := by
  funext a b
  fun_induction compare a b with
  | case1 | case2 | case3 => rfl
  | case4 x p y q ih => rw [ih, List.compareLex_cons_cons]

instance : Std.TransCmp compare := compare_eq_compareLex ▸ inferInstance

instance : Std.LawfulEqCmp compare := compare_eq_compareLex ▸ inferInstance

theorem isLE_compare_total (a b : Path) : (compare a b).isLE ∨ (compare b a).isLE := by
  have hswap : compare b a = (compare a b).swap := Std.OrientedCmp.eq_swap
  rw [hswap]
  cases compare a b <;> decide

theorem isLE_compare_of_cons (h : (compare (x :: p) (y :: q)).isLE) : (Ord.compare x y).isLE := by
  rw [compare, Ordering.isLE_then_iff_and] at h
  exact h.1

/-- Paths that begin alike are compared by what comes behind that. -/
theorem compare_cons_self (x : Segment) (p q : Path) :
    compare (x :: p) (x :: q) = compare p q := by
  rw [compare, Std.ReflOrd.compare_self, Ordering.eq_then]

theorem isPrefixOf_iff : a.isPrefixOf b ↔ a <+: b := List.isPrefixOf_iff_prefix

theorem isPrefixOf_iff_take : a.isPrefixOf b ↔ b.take a.length = a := by
  rw [isPrefixOf_iff, List.prefix_iff_eq_take, eq_comm]

/-- A path comes before its continuations. -/
theorem isLE_compare_of_isPrefixOf (h : a.isPrefixOf b) : (compare a b).isLE := by
  obtain ⟨rest, rfl⟩ := isPrefixOf_iff.mp h
  clear h
  induction a with
  | nil => cases rest <;> rfl
  | cons x a ih => rwa [List.cons_append, compare_cons_self]

/-- Between a path and a continuation of it there are only continuations of it. -/
theorem isPrefixOf_of_between (hac : a.isPrefixOf c) (hab : (compare a b).isLE)
    (hbc : (compare b c).isLE) : a.isPrefixOf b := by
  rw [isPrefixOf_iff] at hac ⊢
  induction a generalizing b c with
  | nil => exact List.nil_prefix
  | cons x a ih =>
    obtain ⟨rest, rfl⟩ := hac
    cases b with
    | nil => contradiction
    | cons y b =>
      -- the first segment of the path between is on both sides of the common one
      obtain rfl : x = y := Std.LawfulEqCmp.eq_of_compare
        (Std.OrientedCmp.isLE_antisymm (isLE_compare_of_cons hab) (isLE_compare_of_cons hbc))
      rw [compare_cons_self] at hab
      rw [List.cons_append, compare_cons_self] at hbc
      exact List.cons_prefix_cons.mpr ⟨rfl, ih (List.prefix_append a rest) hab hbc⟩

/-! ### Lists of paths -/

/-- The paths are in ascending order. -/
def Sorted (paths : List Path) : Prop := paths.Pairwise fun a b ↦ (compare a b).isLE

theorem sorted_sort (paths : List Path) : Sorted (sort paths) := by
  refine List.pairwise_mergeSort (fun a b c ↦ Std.TransCmp.isLE_trans) (fun a b ↦ ?_) paths
  rw [Bool.or_eq_true]
  exact isLE_compare_total a b

/-- In a list that holds nothing before a path, the paths under it come first. -/
theorem Sorted.exists_front (hsorted : Sorted paths) (hge : ∀ p ∈ paths, (compare a p).isLE) :
    ∃ block after, paths = block ++ after ∧ (∀ p ∈ block, a.isPrefixOf p) ∧
      (∀ p ∈ after, ¬ a.isPrefixOf p) ∧ (a ∈ paths → block.head? = some a) := by
  induction paths with
  | nil => exact ⟨[], [], rfl, nofun, nofun, nofun⟩
  | cons p paths ih =>
    obtain ⟨hfirst, hrest⟩ := List.pairwise_cons.mp hsorted
    obtain ⟨hp, hge⟩ := List.forall_mem_cons.mp hge
    by_cases hunder : a.isPrefixOf p
    case pos =>
      obtain ⟨block, after, rfl, hblock, hafter, -⟩ := ih hrest hge
      refine ⟨p :: block, after, rfl, List.forall_mem_cons.mpr ⟨hunder, hblock⟩, hafter, ?_⟩
      intro hmem
      rcases List.mem_cons.mp hmem with rfl | hmem
      · rfl
      · rw [List.head?_cons, Std.LawfulEqCmp.eq_of_compare
          (Std.OrientedCmp.isLE_antisymm (hfirst a hmem) hp)]
    case neg =>
      have hnone : ∀ q ∈ p :: paths, ¬ a.isPrefixOf q := by
        refine List.forall_mem_cons.mpr ⟨hunder, fun q hq hac ↦ hunder ?_⟩
        exact isPrefixOf_of_between hac hp (hfirst q hq)
      refine ⟨[], p :: paths, rfl, nofun, hnone, fun hmem ↦ ?_⟩
      exact absurd (isPrefixOf_iff.mpr (List.prefix_refl a)) (hnone a hmem)

/-- The paths under a path stand side by side, and it comes first of them if it is there. -/
theorem Sorted.exists_block (hsorted : Sorted paths) (a : Path) :
    ∃ before block after, paths = before ++ block ++ after ∧
      (∀ p ∈ before, ¬ a.isPrefixOf p) ∧ (∀ p ∈ block, a.isPrefixOf p) ∧
      (∀ p ∈ after, ¬ a.isPrefixOf p) ∧ (a ∈ paths → block.head? = some a) := by
  induction paths with
  | nil => exact ⟨[], [], [], rfl, nofun, nofun, nofun, nofun⟩
  | cons p paths ih =>
    obtain ⟨hfirst, hrest⟩ := List.pairwise_cons.mp hsorted
    by_cases hp : (compare a p).isLE
    case pos =>
      have hge : ∀ q ∈ p :: paths, (compare a q).isLE :=
        List.forall_mem_cons.mpr ⟨hp, fun q hq ↦ Std.TransCmp.isLE_trans hp (hfirst q hq)⟩
      obtain ⟨block, after, hpaths, hblock⟩ := hsorted.exists_front hge
      exact ⟨[], block, after, hpaths, nofun, hblock⟩
    case neg =>
      obtain ⟨before, block, after, rfl, hbefore, hblock, hafter, hhead⟩ := ih hrest
      have hunder : ¬ a.isPrefixOf p := fun h ↦ hp (isLE_compare_of_isPrefixOf h)
      refine ⟨p :: before, block, after, rfl, List.forall_mem_cons.mpr ⟨hunder, hbefore⟩, hblock,
        hafter, fun hmem ↦ ?_⟩
      rcases List.mem_cons.mp hmem with rfl | hmem
      · exact absurd Std.ReflCmp.isLE_rfl hp
      · exact hhead hmem

/-- The order of paths and the relation of a path to its continuations fit together: the order is
total, transitive and antisymmetric, a path is a prefix of those that begin with it, and comes
before them, what lies between a path and a continuation of it continues it too, and therefore in a
sorted list the paths under one path stand side by side, itself first if it is there. -/
theorem order_and_prefix (a b c : Path) :
    ((compare a b).isLE ∨ (compare b a).isLE) ∧
    ((compare a b).isLE → (compare b c).isLE → (compare a c).isLE) ∧
    ((compare a b).isLE ∧ (compare b a).isLE ↔ a = b) ∧ (compare a b = .eq ↔ a = b) ∧
    (a.isPrefixOf b → (compare a b).isLE) ∧
    (a.isPrefixOf b ↔ b.take a.length = a) ∧
    (a.isPrefixOf c → (compare a b).isLE → (compare b c).isLE → a.isPrefixOf b) ∧
    ∀ paths, Sorted paths → ∃ before block after, paths = before ++ block ++ after ∧
      (∀ p ∈ before, ¬ a.isPrefixOf p) ∧ (∀ p ∈ block, a.isPrefixOf p) ∧
      (∀ p ∈ after, ¬ a.isPrefixOf p) ∧ (a ∈ paths → block.head? = some a) := by
  refine ⟨isLE_compare_total a b, Std.TransCmp.isLE_trans, ?_, Std.LawfulEqCmp.compare_eq_iff_eq,
    isLE_compare_of_isPrefixOf, isPrefixOf_iff_take, isPrefixOf_of_between,
    fun paths hsorted ↦ hsorted.exists_block a⟩
  constructor
  · rintro ⟨hab, hba⟩
    exact Std.LawfulEqCmp.eq_of_compare (Std.OrientedCmp.isLE_antisymm hab hba)
  · rintro rfl
    exact ⟨Std.ReflCmp.isLE_rfl, Std.ReflCmp.isLE_rfl⟩

example : sort [[.key "a", .index 1], [.key "b"], [.key "a"], [.index 0], [.key "a", .key "c"]] =
    [[.key "a"], [.key "a", .key "c"], [.key "a", .index 1], [.key "b"], [.index 0]] := by cbv

end Path

end LiveRecord
