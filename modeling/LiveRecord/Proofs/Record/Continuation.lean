import LiveRecord.Proofs.Record.Lens

/-!
# Paths that continue paths

A long walk is a short walk below another one. What stands at a path that continues another one is
read by the continuation where the first path leads, and a write there is a write of the
continuation below, put back at the first path (`Record.set?_append`). Where the first path leads
to null there is nothing to write below, so the walk makes objects of the names that follow,
whatever kind of segment has them (`Record.nested`). Both are said of reads and writes in
`Record.continues`.
-/

set_option autoImplicit false

namespace LiveRecord.Record

/-- A value in objects of one field each, of which the names lead to it. -/
def nested (names : List String) (value : Value) : Value :=
  names.foldr (fun name below ↦ .object [(name, below)]) value

variable {config : EditConfig} {value record below after : Value} {p s : Path}

/-- A walk from an object with nothing in it makes one object after the other. -/
theorem set?_emptyObject (config : EditConfig) (value : Value) (path : Path) :
    set? config value path .emptyObject = some (nested path.names value) := by
  induction path with
  | nil => rfl
  | cons segment rest ih => exact set?_cons_eq_some_iff.mpr ⟨nested (Path.names rest) value, ih, rfl⟩

/-- A walk along a path that continues another one. It goes on in what it finds at the first one,
and puts back there what came of it. -/
theorem set?_append (config : EditConfig) (value : Value) (s : Path) (hp : p ≠ [])
    (h : get? p record = some below) :
    set? config value (p ++ s) record =
      (set? config value s (entered below)).bind (set? config · p record) := by
  induction p generalizing record with
  | nil => contradiction
  | cons segment rest ih =>
    obtain ⟨inner, hchild, hinner⟩ := Option.bind_eq_some_iff.mp h
    have hslot : slot segment record = entered inner := slot_of_child? hchild
    by_cases hends : rest = []
    case pos =>
      subst hends
      obtain rfl : inner = below := Option.some.inj hinner
      rw [List.singleton_append, set?, hslot]
      rfl
    case neg =>
      have hentered : get? rest (entered inner) = some below := by rw [get?_entered hends, hinner]
      rw [List.cons_append, set?, hslot, ih hends hentered, Option.bind_assoc]
      simp only [set?, hslot]

theorem set_append_of_ne_null (config : EditConfig) (value : Value) (hp : p ≠ []) (hs : s ≠ [])
    (h : get? p record = some below) (hnull : below ≠ .null) :
    set config (p ++ s) value record = (after, none) ↔
      ∃ inside, set config s value below = (inside, none) ∧
        set config p inside record = (after, none) := by
  simp only [set_eq_none_iff, set?_append config value s hp h, entered_of_ne_null hnull,
    Option.bind_eq_some_iff, ne_eq, List.append_eq_nil_iff, hp, hs, and_self, not_false_eq_true,
    true_and]

theorem set_append_of_null (config : EditConfig) (value : Value) (hp : p ≠ []) (hs : s ≠ [])
    (h : get? p record = some .null) :
    set config (p ++ s) value record = (after, none) ↔
      set config p (nested s.names value) record = (after, none) := by
  have hmade : set? config value s (entered .null) = some (nested s.names value) :=
    set?_emptyObject config value s
  simp only [set_eq_none_iff, set?_append config value s hp h, hmade, Option.bind_some, ne_eq,
    List.append_eq_nil_iff, hp, hs, and_self, not_false_eq_true, true_and]

/-- A value can be written where another one stands. -/
theorem exists_set_of_get? (config : EditConfig) (value : Value) (hp : p ≠ [])
    (h : get? p record = some below) :
    ∃ after, set config p value record = (after, none) := by
  obtain ⟨after, hafter, -⟩ := set?_of_set? hp List.prefix_rfl (set?_of_get? config h) value
  exact ⟨after, set_eq_none_iff.mpr ⟨hp, hafter⟩⟩

/-- Reads and writes along a path that continues another one.

A read goes on where the first path leads. So does a write, if the first path leads to a value that
is not null: it comes to what the write of the continuation comes to there, put back at the first
path. Where the first path leads to null, the write puts the value there in objects of the names
that follow. -/
theorem continues (config : EditConfig) (value record : Value) (p s : Path) :
    get? (p ++ s) record = (get? p record).bind (get? s) ∧
    (p ≠ [] → s ≠ [] → ∀ below, get? p record = some below → below ≠ .null →
      ((set config (p ++ s) value record).2 = none ↔ (set config s value below).2 = none) ∧
      ∀ inside, set config s value below = (inside, none) →
        (set config p inside record).2 = none ∧
          set config (p ++ s) value record = set config p inside record) ∧
    (p ≠ [] → s ≠ [] → get? p record = some .null →
      (set config (p ++ s) value record).2 = none ∧
        set config (p ++ s) value record = set config p (nested s.names value) record) := by
  refine ⟨get?_append p s record, fun hp hs below h hnull ↦ ?_, fun hp hs h ↦ ?_⟩
  · have hwrite : ∀ inside, set config s value below = (inside, none) →
        ∃ after, set config p inside record = (after, none) ∧
          set config (p ++ s) value record = (after, none) := by
      intro inside hinside
      obtain ⟨after, hafter⟩ := exists_set_of_get? config inside hp h
      exact ⟨after, hafter,
        (set_append_of_ne_null config value hp hs h hnull).mpr ⟨inside, hinside, hafter⟩⟩
    refine ⟨⟨fun hlong ↦ ?_, fun hshort ↦ ?_⟩, fun inside hinside ↦ ?_⟩
    · obtain ⟨inside, hinside, -⟩ :=
        (set_append_of_ne_null config value hp hs h hnull).mp (Prod.ext rfl hlong)
      rw [hinside]
    · obtain ⟨after, -, hlong⟩ := hwrite _ (Prod.ext rfl hshort)
      rw [hlong]
    · obtain ⟨after, hput, hlong⟩ := hwrite inside hinside
      exact ⟨by rw [hput], by rw [hlong, hput]⟩
  · obtain ⟨after, hput⟩ := exists_set_of_get? config (nested s.names value) hp h
    have hlong := (set_append_of_null config value hp hs h).mpr hput
    exact ⟨by rw [hlong], by rw [hlong, hput]⟩

/-- Below an array the index is a position. Below null the same index becomes the name of a
field. -/
theorem continues_at_index :
    let record : Value := .object [("full", .array [.bool false]), ("none", .null)]
    ((set {} [.key "full", .index 0] (.int 1) record).2 = none ∧
      set {} [.key "full", .index 0] (.int 1) record =
        set {} [.key "full"] (.array [.int 1]) record) ∧
    ((set {} [.key "none", .index 0] (.int 1) record).2 = none ∧
      set {} [.key "none", .index 0] (.int 1) record =
        set {} [.key "none"] (.object [("0", .int 1)]) record) := by
  intro record
  obtain ⟨-, hfull, -⟩ := continues {} (.int 1) record [.key "full"] [.index 0]
  obtain ⟨-, -, hnone⟩ := continues {} (.int 1) record [.key "none"] [.index 0]
  obtain ⟨-, hinside⟩ := hfull (List.cons_ne_nil _ _) (List.cons_ne_nil _ _)
    (.array [.bool false]) (by decide +kernel) (by decide)
  obtain ⟨hput, hlong⟩ := hinside (.array [.int 1]) (by decide +kernel)
  refine ⟨⟨?_, hlong⟩,
    hnone (List.cons_ne_nil _ _) (List.cons_ne_nil _ _) (by decide +kernel)⟩
  rw [← hput, ← hlong]
  rfl

end LiveRecord.Record
