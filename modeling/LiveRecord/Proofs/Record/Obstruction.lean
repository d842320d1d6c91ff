import LiveRecord.Proofs.Record.Walk

/-!
# Obstructions

A write fails where it cannot go on: at a value that is neither an object nor an array, at an array
that its next segment has no position in, and at an array that ends before that position, unless the
write may append there (`Record.Obstacle`). Null is such a value only as the record itself, because
a walk makes an object of it elsewhere. Nothing stands behind an obstacle, so a path meets one at
most. A write fails exactly if its path meets one, with the error that names it
(`Record.error_iff_obstructed`).
-/

set_option autoImplicit false

namespace LiveRecord.Record

/-- What is in the way of a write at a value. The value stands at `before`, and the path goes on
from there by a segment and then `rest`. -/
inductive Obstacle (config : EditConfig) (before : Path) (segment : Segment) (rest : Path) :
    Value → PathError → Prop
  | scalar {found : Value} (hobject : found.kind ≠ .object) (harray : found.kind ≠ .array) :
    Obstacle config before segment rest found (.typeMismatch before found.kind)
  | noPosition {items : List Value} (hposition : segment.position? = none) :
    Obstacle config before segment rest (.array items)
      (.keyOnSequence (before ++ [segment]) segment.fieldName)
  | behindEnd {items : List Value} {index : Nat} (hposition : segment.position? = some index)
    (hbehind : items.length ≤ index)
    (hgrows : ¬ (rest = [] ∧ index = items.length ∧ config.appendAtEnd)) :
    Obstacle config before segment rest (.array items)
      (.indexOutOfBounds (before ++ [segment]) index items.length)

/-- A value on the way of a write, which is in its way with that error. -/
def Obstructs (config : EditConfig) (path : Path) (record : Value) (error : PathError) : Prop :=
  ∃ (before : Path) (segment : Segment) (rest : Path) (found : Value),
    path = before ++ segment :: rest ∧ get? before record = some found ∧
      (found = .null → before = []) ∧ Obstacle config before segment rest found error

variable {config : EditConfig} {value record found : Value} {segment : Segment}
  {outer before path rest : Path} {error : PathError}

/-! ### One step -/

theorem snd_setBelow_of_obstacle (value : Value)
    (h : Obstacle config before segment rest record error) :
    (setBelow config value before (segment :: rest) record).2 = some error := by
  cases h with
  | scalar hobject harray =>
    cases record with
    | object => contradiction
    | array => contradiction
    | _ => rfl
  | noPosition hposition => simp only [setBelow, hposition]
  | @behindEnd items index hposition hbehind hgrows =>
    cases rest with
    | nil =>
      rw [setBelow, hposition]
      dsimp only
      rw [if_neg (by omega), if_neg fun hends ↦ hgrows ⟨rfl, hends⟩]
    | cons next rest => simp only [setBelow, hposition, List.getElem?_eq_none hbehind]

/-- Where nothing is in the way, a write puts its value, or goes on in a slot. -/
theorem exists_obstacle_or (config : EditConfig) (before : Path) (segment : Segment) (rest : Path)
    (record : Value) :
    (∃ error, Obstacle config before segment rest record error) ∨
      (rest = [] → ∀ value, ∃ after, put? config segment value record = some after) ∧
      (rest ≠ [] → slot segment record ≠ .null) := by
  cases record with
  | object fields => exact .inr ⟨fun _ _ ↦ ⟨_, rfl⟩, fun _ ↦ entered_ne_null⟩
  | array items =>
    cases hposition : segment.position? with
    | none => exact .inl ⟨_, .noPosition hposition⟩
    | some index =>
      by_cases hthere : index < items.length
      case pos =>
        refine .inr ⟨fun _ _ ↦ ⟨_, put?_eq_some_iff.mpr (.item hposition hthere)⟩, fun _ ↦ ?_⟩
        have hchild : child? segment (.array items) = some items[index] := by
          rw [child?, hposition, Option.bind_some, List.getElem?_eq_getElem hthere]
        rw [slot_of_child? hchild]
        exact entered_ne_null
      case neg =>
        by_cases hgrows : rest = [] ∧ index = items.length ∧ config.appendAtEnd
        case pos =>
          obtain ⟨hlast, rfl, hallowed⟩ := hgrows
          exact .inr ⟨fun _ _ ↦ ⟨_, put?_eq_some_iff.mpr (.append hposition hallowed)⟩,
            fun hgoes ↦ absurd hlast hgoes⟩
        case neg => exact .inl ⟨_, .behindEnd hposition (Nat.le_of_not_lt hthere) hgrows⟩
  | _ => exact .inl ⟨_, .scalar (by simp [Value.kind]) (by simp [Value.kind])⟩

/-- A write that goes on in a slot fails as it fails there. -/
theorem snd_setBelow_cons (config : EditConfig) (value : Value) (before : Path)
    (hslot : slot segment record ≠ .null) (hrest : rest ≠ []) :
    (setBelow config value before (segment :: rest) record).2 =
      (setBelow config value (before ++ [segment]) rest (slot segment record)).2 := by
  obtain ⟨next, rest, rfl⟩ := List.exists_cons_of_ne_nil hrest
  obtain ⟨after, hput⟩ := exists_put?_of_slot config
    (setBelow config value (before ++ [segment]) (next :: rest) (slot segment record)).1 hslot
  rw [setBelow_cons hslot rfl hput]

/-! ### The way of a write -/

theorem get?_slot_of_ne_null (h : get? (segment :: path) record = some found)
    (hfound : found ≠ .null) :
    get? path (slot segment record) = some found ∧ slot segment record ≠ .null := by
  obtain ⟨below, hchild, hbelow⟩ := Option.bind_eq_some_iff.mp h
  rw [slot_of_child? hchild]
  refine ⟨?_, entered_ne_null⟩
  cases path with
  | nil =>
    obtain rfl := Option.some.inj hbelow
    rw [entered_of_ne_null hfound, get?]
  | cons next path => rw [get?_entered (List.cons_ne_nil _ _), hbelow]

/-- A write fails at an obstacle that its path leads to. -/
theorem snd_setBelow_of_get? (value : Value) (hfound : get? before record = some found)
    (hnull : found = .null → before = [])
    (hobstacle : Obstacle config (outer ++ before) segment rest found error) :
    (setBelow config value outer (before ++ segment :: rest) record).2 = some error := by
  induction before generalizing outer record with
  | nil =>
    obtain rfl := Option.some.inj hfound
    rw [List.append_nil] at hobstacle
    exact snd_setBelow_of_obstacle value hobstacle
  | cons first before ih =>
    have hne : found ≠ .null := fun heq ↦ List.cons_ne_nil _ _ (hnull heq)
    obtain ⟨hbelow, hslot⟩ := get?_slot_of_ne_null hfound hne
    rw [List.cons_append, snd_setBelow_cons config value outer hslot (by simp)]
    refine ih hbelow (fun heq ↦ absurd heq hne) ?_
    rwa [List.append_assoc, List.singleton_append]

/-- A write that fails has met an obstacle, and nothing was made on the way to it. -/
theorem exists_obstacle_of_error (h : (setBelow config value outer path record).2 = some error) :
    ∃ (before : Path) (segment : Segment) (rest : Path) (found : Value),
      path = before ++ segment :: rest ∧ get? before record = some found ∧
        (found = .null → before = []) ∧
        Obstacle config (outer ++ before) segment rest found error := by
  induction path generalizing outer record with
  | nil => contradiction
  | cons segment rest ih =>
    rcases exists_obstacle_or config outer segment rest record with
      ⟨error', hobstacle⟩ | ⟨hput, hslot⟩
    · rw [snd_setBelow_of_obstacle value hobstacle] at h
      obtain rfl := Option.some.inj h
      refine ⟨[], segment, rest, record, rfl, rfl, fun _ ↦ rfl, ?_⟩
      rwa [List.append_nil]
    by_cases hlast : rest = []
    case pos =>
      obtain ⟨after, hafter⟩ := hput hlast value
      have hnone := (setBelow_of_error h).1
      rw [hlast, set?_cons_eq_some_iff.mpr ⟨value, rfl, hafter⟩] at hnone
      contradiction
    case neg =>
      have hentered := hslot hlast
      rw [snd_setBelow_cons config value outer hentered hlast] at h
      have hchild := child?_of_obstructed hentered (setBelow_of_error h).1
      obtain ⟨before, last, behind, found, rfl, hfound, hnull, hobstacle⟩ := ih h
      refine ⟨segment :: before, last, behind, found, rfl, ?_, ?_, ?_⟩
      · rw [get?, hchild, Option.bind_some, hfound]
      · -- what a walk goes on in is no null
        intro heq
        obtain rfl := hnull heq
        exact absurd ((Option.some.inj hfound).trans heq) hentered
      · rwa [List.append_assoc, List.singleton_append] at hobstacle

/-! ### Errors -/

theorem not_obstructs_nil : ¬ Obstructs config [] record error := by
  rintro ⟨before, segment, rest, -, hpath, -⟩
  simp at hpath

theorem not_obstructs_emptyPath : ¬ Obstructs config path record .emptyPath := by
  rintro ⟨_, _, _, _, _, _, _, hobstacle⟩
  cases hobstacle

theorem snd_set_eq_some_iff : (set config path value record).2 = some error ↔
    path = [] ∧ error = .emptyPath ∨ Obstructs config path record error := by
  by_cases hempty : path = []
  case pos =>
    subst hempty
    simp [set, not_obstructs_nil, eq_comm]
  case neg =>
    rw [set, if_neg hempty]
    constructor
    · exact fun h ↦ .inr (exists_obstacle_of_error h)
    · rintro (⟨hpath, -⟩ | ⟨before, segment, rest, found, rfl, hfound, hnull, hobstacle⟩)
      · contradiction
      · exact snd_setBelow_of_get? value hfound hnull hobstacle

theorem exists_set_eq_none_iff : (∃ after, set config path value record = (after, none)) ↔
    path ≠ [] ∧ ∀ error, ¬ Obstructs config path record error := by
  calc (∃ after, set config path value record = (after, none))
    _ ↔ (set config path value record).2 = none :=
      ⟨fun ⟨_, hset⟩ ↦ by rw [hset], fun h ↦ ⟨_, Prod.ext rfl h⟩⟩
    _ ↔ ∀ error, (set config path value record).2 ≠ some error := Option.eq_none_iff_forall_ne_some
    _ ↔ path ≠ [] ∧ ∀ error, ¬ Obstructs config path record error := by
      simp only [Ne, snd_set_eq_some_iff, not_or, not_and, forall_and, imp_not_comm, forall_eq]

/-- A path meets one obstacle at most. -/
theorem Obstructs.unique {first second : PathError} (hfirst : Obstructs config path record first)
    (hsecond : Obstructs config path record second) : first = second := by
  have herror : (set config path .null record).2 = some first :=
    snd_set_eq_some_iff.mpr (.inr hfirst)
  rw [snd_set_eq_some_iff.mpr (.inr hsecond)] at herror
  exact (Option.some.inj herror).symm

/-- A write fails on the empty path, and otherwise exactly if its path meets an obstacle, with the
error that names it. No path meets two, and where there is none the write succeeds. -/
theorem error_iff_obstructed (config : EditConfig) (path : Path) (value record : Value) :
    ((set config path value record).2 = some .emptyPath ↔ path = []) ∧
    (∀ error, (set config path value record).2 = some error ↔
      path = [] ∧ error = .emptyPath ∨ Obstructs config path record error) ∧
    ((∃ after, set config path value record = (after, none)) ↔
      path ≠ [] ∧ ∀ error, ¬ Obstructs config path record error) ∧
    ∀ first second, Obstructs config path record first → Obstructs config path record second →
      first = second := by
  refine ⟨?_, fun error ↦ snd_set_eq_some_iff, exists_set_eq_none_iff,
    fun _ _ hfirst hsecond ↦ hfirst.unique hsecond⟩
  rw [snd_set_eq_some_iff]
  simp [not_obstructs_emptyPath]

/-- An array ends before a slot that the path goes on from, and takes an item there at the end of
the path. -/
theorem error_iff_obstructed_behind_end :
    let record : Value := .object [("a", .array [.null])]
    let path : Path := [.key "a", .key "1", .key "b"]
    let error : PathError := .indexOutOfBounds [.key "a", .key "1"] 1 1
    Obstructs {} path record error ∧ (set {} path .null record).2 = some error ∧
      (∀ other, Obstructs {} path record other → other = error) ∧
      ∀ other, ¬ Obstructs {} (path.take 2) record other := by
  intro record path error
  have hobstructs : Obstructs {} path record error :=
    ⟨[.key "a"], .key "1", [.key "b"], .array [.null], rfl, by decide, nofun,
      .behindEnd (by decide) (by decide) (by decide)⟩
  have hset : set {} (path.take 2) .null record =
      (.object [("a", .array [.null, .null])], none) := by decide +kernel
  obtain ⟨-, hfails, -, hunique⟩ := error_iff_obstructed {} path .null record
  obtain ⟨-, -, hsucceeds, -⟩ := error_iff_obstructed {} (path.take 2) .null record
  exact ⟨hobstructs, (hfails error).mpr (.inr hobstructs),
    fun other hother ↦ hunique other error hother hobstructs, (hsucceeds.mp ⟨_, hset⟩).2⟩

/-- Null is made an object on the way of a write, but not as the record itself. -/
example : (set {} [.key "a"] (.bool true) .null).2 = some (.typeMismatch [] .null) ∧
    set {} [.key "a", .key "b"] (.bool true) (.object [("a", .null)]) =
      (.object [("a", .object [("b", .bool true)])], none) := by decide +kernel

end LiveRecord.Record
