import LiveRecord.Proofs.Record.Walk

/-!
# Reading back and writing again

A path is a lens on the records that it leads into. A value that was written is read back, and
writing back the value that is read changes nothing (`Record.read_back`). Of two writes the later
one stays if it is made at the place of the earlier one, or above it: the earlier one has left
nothing that shows in the record, whatever it made or appended on its way (`Record.set_absorbs`).
-/

set_option autoImplicit false

namespace LiveRecord.Record

variable {config : EditConfig} {value found x y record after first second : Value} {a : Segment}
  {path p q : Path}

/-! ### Reading back -/

theorem get?_of_set? (h : set? config value path record = some after) :
    get? path after = some value := by
  induction path generalizing record after with
  | nil => exact h.symm
  | cons segment rest ih =>
    obtain ⟨below, hbelow, hput⟩ := set?_cons_eq_some_iff.mp h
    rw [get?, child?_of_put? hput, Option.bind_some, ih hbelow]

theorem set?_of_get? (config : EditConfig) (h : get? path record = some found) :
    set? config found path record = some record := by
  induction path generalizing record with
  | nil => exact h.symm
  | cons segment rest ih =>
    obtain ⟨below, hchild, hbelow⟩ := Option.bind_eq_some_iff.mp h
    refine set?_cons_eq_some_iff.mpr ⟨below, ?_, put?_of_child? config hchild⟩
    rw [slot_of_child? hchild]
    -- null is entered as an object, but then it is what was read, and the walk ends there
    by_cases hnull : below = .null
    case pos =>
      subst hnull
      cases rest with
      | nil => exact hbelow.symm
      | cons next rest => contradiction
    case neg =>
      rw [entered_of_ne_null hnull]
      exact ih hbelow

/-- What was written at a path is read there, and writing what is read there changes nothing. -/
theorem read_back (config : EditConfig) (hne : path ≠ []) (record : Value) :
    (∀ value after, set config path value record = (after, none) →
      get? path after = some value) ∧
    ∀ found, get? path record = some found → set config path found record = (record, none) :=
  ⟨fun _ _ h ↦ get?_of_set? (set_eq_none_iff.mp h).2,
    fun _ h ↦ set_eq_none_iff.mpr ⟨hne, set?_of_get? config h⟩⟩

/-- A write that appends, and null that is read by a key as a position and an index as a name. -/
theorem read_back_behind_end :
    let record : Value := .object [("a", .array [.object [("0", .null)]])]
    let after : Value := .object [("a", .array [.object [("0", .null)], .bool true])]
    let last : Path := [.key "a", .index 1]
    let inner : Path := [.key "a", .key "0", .index 0]
    (last ≠ [] ∧ set {} last (.bool true) record = (after, none) ∧
      get? last after = some (.bool true)) ∧
    (inner ≠ [] ∧ get? inner record = some .null ∧
      set {} inner .null record = (record, none)) := by
  intro record after last inner
  have hset : set {} last (.bool true) record = (after, none) := by decide +kernel
  have hget : get? inner record = some .null := by decide +kernel
  have hlast : last ≠ [] := List.cons_ne_nil _ _
  have hinner : inner ≠ [] := List.cons_ne_nil _ _
  exact ⟨⟨hlast, hset, (read_back {} hlast record).1 _ _ hset⟩,
    hinner, hget, (read_back {} hinner record).2 _ hget⟩

/-! ### Writing again -/

/-- What is written below a value is no null. -/
theorem set?_ne_null (h : set? config value path record = some after) (hpath : path ≠ []) :
    after ≠ .null := by
  obtain ⟨segment, rest, rfl⟩ := List.exists_cons_of_ne_nil hpath
  obtain ⟨below, -, hput⟩ := set?_cons_eq_some_iff.mp h
  cases put?_eq_some_iff.mp hput <;> simp

/-- A second walk in a slot replaces what the first one put there. -/
theorem set?_cons_of_slot (hx : set? config x p (slot a record) = some first)
    (hput : put? config a first record = some after) (hp : p ≠ [])
    (hy : set? config y q first = some second) :
    set? config y (a :: q) after = put? config a second record := by
  rw [set?, slot_of_put? hput, entered_of_ne_null (set?_ne_null hx hp), hy, Option.bind_some,
    put?_of_put? hput]

/-- A walk that ends on the way of another one comes to the same before it and after it. -/
theorem set?_of_set? (hq : q ≠ []) (hnames : q.names <+: p.names)
    (h : set? config x p record = some first) (y : Value) :
    ∃ after, set? config y q record = some after ∧ set? config y q first = some after := by
  induction q generalizing p record first with
  | nil => contradiction
  | cons b q ih =>
    cases p with
    | nil => simp at hnames
    | cons a p =>
      obtain ⟨hname, hrest⟩ := List.cons_prefix_cons.mp hnames
      rw [set?_congr (show Path.names (b :: q) = Path.names (a :: q) by simp [hname])]
      obtain ⟨below, hbelow, hput⟩ := set?_cons_eq_some_iff.mp h
      by_cases hends : q = []
      case pos =>
        subst hends
        obtain ⟨after, hafter⟩ := exists_put? hput y
        refine ⟨after, set?_cons_eq_some_iff.mpr ⟨y, rfl, hafter⟩,
          set?_cons_eq_some_iff.mpr ⟨y, rfl, ?_⟩⟩
        rw [put?_of_put? hput, hafter]
      case neg =>
        have hp : p ≠ [] := by
          rintro rfl
          exact hends (List.map_eq_nil_iff.mp (List.prefix_nil.mp hrest))
        obtain ⟨second, hsecond, hsecond'⟩ := ih hends hrest hbelow
        obtain ⟨after, hafter⟩ := exists_put? hput second
        refine ⟨after, set?_cons_eq_some_iff.mpr ⟨second, hsecond, hafter⟩, ?_⟩
        rw [set?_cons_of_slot hbelow hput hp hsecond', hafter]

/-- After a write, a write at the same place or above it comes to the same as without the first
one. In particular a write that is made again changes nothing. -/
theorem set_absorbs (hq : q ≠ []) (hnames : q.names <+: p.names)
    (h : set config p x record = (first, none)) :
    (∀ y, ∃ after, set config q y record = (after, none) ∧ set config q y first = (after, none)) ∧
      set config p x first = (first, none) := by
  obtain ⟨hp, hfirst⟩ := set_eq_none_iff.mp h
  refine ⟨fun y ↦ ?_, ?_⟩
  · obtain ⟨after, hafter, hafter'⟩ := set?_of_set? hq hnames hfirst y
    exact ⟨after, set_eq_none_iff.mpr ⟨hq, hafter⟩, set_eq_none_iff.mpr ⟨hq, hafter'⟩⟩
  · exact set_eq_none_iff.mpr ⟨hp, set?_of_get? config (get?_of_set? hfirst)⟩

/-- The second write finds the item there that the first one appended, and another spelling of its
position. -/
theorem set_absorbs_appended :
    let record : Value := .object [("a", .array [.null])]
    let first : Value := .object [("a", .array [.null, .int 1])]
    let p : Path := [.key "a", .key "1"]
    let q : Path := [.key "a", .index 1]
    q ≠ [] ∧ q.names <+: p.names ∧ set {} p (.int 1) record = (first, none) ∧
      (∃ after, set {} q (.int 2) record = (after, none) ∧
        set {} q (.int 2) first = (after, none)) ∧
      set {} p (.int 1) first = (first, none) := by
  intro record first p q
  have hq : q ≠ [] := List.cons_ne_nil _ _
  have hnames : q.names <+: p.names := by decide
  have hset : set {} p (.int 1) record = (first, none) := by decide +kernel
  obtain ⟨habsorbed, hagain⟩ := set_absorbs hq hnames hset
  exact ⟨hq, hnames, hset, habsorbed (.int 2), hagain⟩

end LiveRecord.Record
