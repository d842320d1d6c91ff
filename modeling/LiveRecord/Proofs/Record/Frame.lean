import LiveRecord.Proofs.Record.Walk

/-!
# What a write leaves alone

A write leaves every path alone that is apart from its own (`Record.get?_of_apart`). A value that
its path leads through stays what it is (`Record.Passed`): an object is made where nothing or null
stood, and an array keeps its items but the one that the path leads into, or grows by one item at
the end of the path. Therefore no array is made, shortened or put in another order
(`Record.frame_of_set`).
-/

set_option autoImplicit false

namespace LiveRecord.Record

/-- What a write makes of a value that its path leads through. The path goes on from there with a
segment of that position, which is its last one or not. -/
structure Passed (position : Option Nat) (last : Prop) (old : Option Value) (new : Value) :
    Prop where
  made : old = none ∨ old = some .null → new.kind = .object
  kept : ∀ value, old = some value → value ≠ .null → new.kind = value.kind
  sequence : ∀ items, old = some (.array items) → ∃ items', new = .array items' ∧
    (last ∧ position = some items.length → items'.length = items.length + 1) ∧
    (¬ (last ∧ position = some items.length) → items'.length = items.length) ∧
    ∀ i, position ≠ some i → items'[i]? = items[i]?

variable {config : EditConfig} {value record after below new : Value} {segment : Segment}
  {path p q before rest : Path} {position : Option Nat} {last : Prop}

/-! ### Values on the way -/

theorem get?_singleton (segment : Segment) (record : Value) :
    get? [segment] record = child? segment record := by
  rw [get?]
  cases child? segment record <;> rfl

/-- What a write puts back where its path leads through. Assumes: a path that goes on enters what it
finds. -/
theorem passed_of_put? (hput : put? config segment below record = some after)
    (hlast : ¬ last → slot segment record ≠ .null) :
    Passed segment.position? last (some record) after := by
  have hkind := kind_of_put? hput
  have hkept : ∀ value, some record = some value → value ≠ .null → after.kind = value.kind := by
    intro value hvalue _
    rw [← Option.some.inj hvalue, hkind]
  cases put?_eq_some_iff.mp hput with
  | field fields => exact ⟨by simp, hkept, by simp⟩
  | @item items n hposition hthere =>
    refine ⟨by simp, hkept, fun old hold ↦ ?_⟩
    obtain rfl : items = old := Value.array.inj (Option.some.inj hold)
    refine ⟨_, rfl, fun ⟨_, hend⟩ ↦ ?_, fun _ ↦ List.length_set, fun i hi ↦ ?_⟩
    · rw [hposition, Option.some_inj] at hend
      omega
    · have hne : n ≠ i := by
        rintro rfl
        exact hi hposition
      exact List.getElem?_set_ne hne
  | @append items hposition hallowed =>
    have hends : last := Classical.byContradiction fun hgoes ↦ by
      refine hlast hgoes ?_
      rw [slot, hposition, Option.bind_some, List.getElem?_eq_none (Nat.le_refl _)]
      rfl
    refine ⟨by simp, hkept, fun old hold ↦ ?_⟩
    obtain rfl : items = old := Value.array.inj (Option.some.inj hold)
    refine ⟨_, rfl, fun _ ↦ by simp, fun hnot ↦ absurd ⟨hends, hposition⟩ hnot, fun i hi ↦ ?_⟩
    refine getElem?_concat_of_ne ?_
    rintro rfl
    exact hi hposition

/-- A slot that was made or filled counts as missing. -/
theorem Passed.of_slot (h : Passed position last (some (slot segment record)) new) :
    Passed position last (child? segment record) new := by
  have hobject : slot segment record = .emptyObject ∨ slot segment record = .null →
      new.kind = .object := by
    rintro (hslot | hslot)
    · exact h.kept .emptyObject (congrArg some hslot) (by simp)
    · exact h.made (.inr (congrArg some hslot))
  cases hchild : child? segment record with
  | none =>
    refine ⟨fun _ ↦ hobject ?_, by simp, by simp⟩
    rw [slot_of_child?_eq_none hchild]
    split
    · exact .inl rfl
    · exact .inr rfl
  | some below =>
    have hslot := slot_of_child? hchild
    by_cases hnull : below = .null
    case pos =>
      subst hnull
      refine ⟨fun _ ↦ hobject (.inl hslot), fun value hvalue hne ↦ ?_, by simp⟩
      exact absurd (Option.some.inj hvalue).symm hne
    case neg =>
      rw [← entered_of_ne_null hnull, ← hslot]
      exact h

/-- A write leads through every value before the end of its path. -/
theorem exists_passed (h : set? config value (before ++ segment :: rest) record = some after) :
    ∃ new, get? before after = some new ∧
      Passed segment.position? (rest = []) (get? before record) new := by
  induction before generalizing record after with
  | nil =>
    obtain ⟨below, hbelow, hput⟩ := set?_cons_eq_some_iff.mp h
    refine ⟨after, rfl, passed_of_put? hput fun hgoes hslot ↦ ?_⟩
    rw [hslot, set?_null hgoes] at hbelow
    contradiction
  | cons first before ih =>
    obtain ⟨below, hbelow, hput⟩ := set?_cons_eq_some_iff.mp h
    obtain ⟨new, hnew, hpassed⟩ := ih hbelow
    refine ⟨new, ?_, ?_⟩
    · rw [get?, child?_of_put? hput, Option.bind_some, hnew]
    · by_cases hbefore : before = []
      · subst hbefore
        rw [get?_singleton]
        exact hpassed.of_slot
      · rwa [get?_slot hbefore] at hpassed

/-- No array is made, or moves its items but the one that the path leads into. -/
theorem Passed.items_of_array {items' : List Value}
    (h : Passed segment.position? last (get? q record) (.array items'))
    (hnames : q.names ++ [segment.fieldName] <+: p.names) :
    ∃ items, get? q record = some (.array items) ∧ items.length ≤ items'.length ∧
      ∀ i : Nat, ¬ q.names ++ [i.repr] <+: p.names → items'[i]? = items[i]? := by
  have hold : ∃ items, get? q record = some (.array items) := by
    cases hget : get? q record with
    | none => exact absurd (h.made (.inl hget)) (by simp [Value.kind])
    | some old =>
      cases old with
      | null => exact absurd (h.made (.inr hget)) (by simp [Value.kind])
      | array items => exact ⟨items, rfl⟩
      | _ => exact absurd (h.kept _ hget (by simp)) (by simp [Value.kind])
  obtain ⟨items, hitems⟩ := hold
  obtain ⟨_, hnew, hgrown, hsame, hplaces⟩ := h.sequence items hitems
  obtain rfl := Value.array.inj hnew
  refine ⟨items, hitems, ?_, fun i hi ↦ hplaces i fun hposition ↦ hi ?_⟩
  · by_cases hend : last ∧ segment.position? = some items.length
    · rw [hgrown hend]
      exact Nat.le_succ _
    · exact Nat.le_of_eq (hsame hend).symm
  · rwa [← ((Segment.position?_eq_some_iff segment i).mp hposition).2]

/-! ### Values apart from the way -/

/-- A walk leaves every path alone that is apart from its own. -/
theorem get?_of_apart (h : set? config value p record = some after) (hapart : p.Apart q) :
    get? q after = get? q record := by
  induction p generalizing q record after with
  | nil => exact absurd hapart Path.not_apart_nil
  | cons a p ih =>
    cases q with
    | nil => exact absurd hapart.symm Path.not_apart_nil
    | cons b q =>
      obtain ⟨below, hbelow, hput⟩ := set?_cons_eq_some_iff.mp h
      by_cases hname : b.fieldName = a.fieldName
      case neg => rw [get?, get?, child?_of_put?_of_ne hput hname]
      case pos =>
        have hrest : Path.Apart p q := hapart.tail hname.symm
        calc get? (b :: q) after
          _ = get? q below := by
            rw [get?, child?_congr hname, child?_of_put? hput, Option.bind_some]
          _ = get? q (slot a record) := ih hbelow hrest
          _ = get? (a :: q) record := get?_slot hrest.symm.ne_nil
          _ = get? (b :: q) record := by rw [get?, get?, child?_congr hname]

/-- A write leaves every path alone that is apart from its own, every value that its path leads
through stays what it is, and no array is made, shortened or put in another order but in the value
that was written. -/
theorem frame_of_set (h : set config path value record = (after, none)) :
    (∀ q, path.Apart q → get? q after = get? q record) ∧
    (∀ (q before : Path) segment rest, path = before ++ segment :: rest → q.names = before.names →
      ∃ new, get? q after = some new ∧
        Passed segment.position? (rest = []) (get? q record) new) ∧
    (∀ q : Path, ¬ path.names <+: q.names →
      (∀ items', get? q after = some (.array items') →
        ∃ items, get? q record = some (.array items) ∧ items.length ≤ items'.length ∧
          ∀ i : Nat, ¬ q.names ++ [i.repr] <+: path.names → items'[i]? = items[i]?) ∧
      (∀ items, get? q record = some (.array items) →
        ∃ items', get? q after = some (.array items'))) := by
  obtain ⟨-, hset⟩ := set_eq_none_iff.mp h
  have hthrough : ∀ (q before : Path) segment rest, path = before ++ segment :: rest →
      q.names = before.names → ∃ new, get? q after = some new ∧
        Passed segment.position? (rest = []) (get? q record) new := by
    rintro q before segment rest rfl hnames
    rw [get?_congr hnames]
    exact exists_passed hset
  refine ⟨fun q hapart ↦ get?_of_apart hset hapart, hthrough, fun q houtside ↦ ?_⟩
  by_cases hnames : q.names <+: path.names
  case neg =>
    rw [get?_of_apart hset ⟨houtside, hnames⟩]
    exact ⟨fun items hitems ↦ ⟨items, hitems, Nat.le_refl _, fun _ _ ↦ rfl⟩,
      fun items hitems ↦ ⟨items, hitems⟩⟩
  case pos =>
    obtain ⟨before, segment, rest, hpath, hbefore⟩ :=
      Path.exists_eq_append_of_names hnames houtside
    obtain ⟨new, hnew, hpassed⟩ := hthrough q before segment rest hpath hbefore
    rw [hnew]
    constructor
    · intro items' hitems'
      obtain rfl := Option.some.inj hitems'
      refine hpassed.items_of_array ?_
      rw [hpath, Path.names_append, hbefore, Path.names_cons]
      exact ⟨rest.names, by rw [List.append_assoc, List.singleton_append]⟩
    · intro items hitems
      obtain ⟨items', rfl, -⟩ := hpassed.sequence items hitems
      exact ⟨items', rfl⟩

/-- A write through an item of an array and through null. -/
theorem frame_of_set_through_null :
    let record : Value := .object [("a", .array [.object [("n", .null)], .string "x"])]
    let filled : Value := .object [("n", .object [("k", .bool true)])]
    let after : Value := .object [("a", .array [filled, .string "x"])]
    let path : Path := [.key "a", .key "0", .key "n", .key "k"]
    let slot : Path := [.key "a", .index 0, .key "n"]
    set {} path (.bool true) record = (after, none) ∧
      get? [.key "a", .index 1] after = get? [.key "a", .index 1] record ∧
      (∃ new, get? slot after = some new ∧
        Passed (Segment.key "k").position? (([] : Path) = []) (get? slot record) new) ∧
      ∃ items', get? [.key "a"] after = some (.array items') := by
  intro record filled after path slot
  have hset : set {} path (.bool true) record = (after, none) := by decide +kernel
  obtain ⟨hapart, hthrough, harrays⟩ := frame_of_set hset
  refine ⟨hset, hapart _ (by decide), hthrough slot (path.take 3) (.key "k") [] rfl (by decide), ?_⟩
  exact (harrays [.key "a"] (by decide)).2 _ (by rfl)

end LiveRecord.Record
