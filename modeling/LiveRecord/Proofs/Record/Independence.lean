import LiveRecord.Proofs.Record.Lens

/-!
# Writes in any order

Two writes at paths that are apart do not stand in each other's way, and come to the same record in
either order (`Record.set_comm_of_apart`). Where the paths part, the two walks put values at places
with different names. Before, both walks go on in one slot, which the first one may have made.
-/

set_option autoImplicit false

namespace LiveRecord.Record

variable {config : EditConfig} {value x y record after first second : Value} {a b : Segment}
  {p q path rest : Path}

/-- A walk finds its slot as it was when another walk has put a value under another name. -/
theorem set?_cons_of_put? (h : set? config x (a :: rest) record = some first)
    (hput : put? config b y record = some second) (hne : a.fieldName ≠ b.fieldName) :
    ∃ both, set? config x (a :: rest) second = some both ∧ put? config b y first = some both := by
  obtain ⟨below, hbelow, hfirst⟩ := set?_cons_eq_some_iff.mp h
  obtain ⟨both, hboth, hboth'⟩ := put?_comm hfirst hput hne
  refine ⟨both, set?_cons_eq_some_iff.mpr ⟨below, ?_, hboth'⟩, hboth⟩
  rwa [slot_of_put?_of_ne hput hne]

theorem set?_comm (hapart : p.Apart q) (hx : set? config x p record = some first)
    (hy : set? config y q record = some second) :
    ∃ both, set? config y q first = some both ∧ set? config x p second = some both := by
  induction p generalizing q record first second with
  | nil => exact absurd hapart Path.not_apart_nil
  | cons a p ih =>
    cases q with
    | nil => exact absurd hapart.symm Path.not_apart_nil
    | cons b q =>
      by_cases hname : a.fieldName = b.fieldName
      case neg =>
        obtain ⟨below, hbelow, hput⟩ := set?_cons_eq_some_iff.mp hy
        obtain ⟨both, hboth, hput'⟩ := set?_cons_of_put? hx hput hname
        refine ⟨both, set?_cons_eq_some_iff.mpr ⟨below, ?_, hput'⟩, hboth⟩
        obtain ⟨_, -, hfirst⟩ := set?_cons_eq_some_iff.mp hx
        rwa [slot_of_put?_of_ne hfirst (Ne.symm hname)]
      case pos =>
        have hrest : Path.Apart p q := hapart.tail hname
        have hsame : set? config y (b :: q) = set? config y (a :: q) :=
          set?_congr (by rw [Path.names_cons, Path.names_cons, hname])
        rw [hsame] at hy ⊢
        obtain ⟨below, hbelow, hput⟩ := set?_cons_eq_some_iff.mp hx
        obtain ⟨below', hbelow', hput'⟩ := set?_cons_eq_some_iff.mp hy
        obtain ⟨both, hboth, hboth'⟩ := ih hrest hbelow hbelow'
        obtain ⟨record', hrecord'⟩ := exists_put? hput both
        refine ⟨record', ?_, ?_⟩
        · rw [set?_cons_of_slot hbelow hput hrest.ne_nil hboth, hrecord']
        · rw [set?_cons_of_slot hbelow' hput' hrest.symm.ne_nil hboth', hrecord']

/-- Two writes that succeed, at paths that are apart, succeed one after the other, and come to the
same record in either order. -/
theorem set_comm_of_apart (hapart : p.Apart q) (hx : set config p x record = (first, none))
    (hy : set config q y record = (second, none)) :
    ∃ both, set config q y first = (both, none) ∧ set config p x second = (both, none) := by
  obtain ⟨hp, hfirst⟩ := set_eq_none_iff.mp hx
  obtain ⟨hq, hsecond⟩ := set_eq_none_iff.mp hy
  obtain ⟨both, hboth, hboth'⟩ := set?_comm hapart hfirst hsecond
  exact ⟨both, set_eq_none_iff.mpr ⟨hq, hboth⟩, set_eq_none_iff.mpr ⟨hp, hboth'⟩⟩

/-- One write appends to an array, and the other one fills an item of it that is null. -/
theorem set_comm_at_end :
    let record : Value := .object [("a", .array [.null])]
    let second : Value := .object [("a", .array [.object [("k", .int 2)]])]
    let p : Path := [.key "a", .index 1]
    let q : Path := [.key "a", .key "0", .key "k"]
    p.Apart q ∧ set {} p (.int 1) record = (.object [("a", .array [.null, .int 1])], none) ∧
      set {} q (.int 2) record = (second, none) ∧
      ∃ both, set {} q (.int 2) (.object [("a", .array [.null, .int 1])]) = (both, none) ∧
        set {} p (.int 1) second = (both, none) := by
  intro record second p q
  have hapart : p.Apart q := by decide
  have hx : set {} p (.int 1) record = (.object [("a", .array [.null, .int 1])], none) := by
    decide +kernel
  have hy : set {} q (.int 2) record = (second, none) := by decide +kernel
  exact ⟨hapart, hx, hy, set_comm_of_apart hapart hx hy⟩

end LiveRecord.Record
