import LiveRecord.Proofs.Record.Place

/-!
# Walks

A write walks along its path, and puts values back on its way out. `Record.set?` is that walk
without the account of what obstructed it, and it is what a write comes to
(`Record.setBelow_cases`). A walk that has made a slot or filled one cannot be obstructed any more
(`Record.exists_set?_emptyObject`), so a write that fails leaves the record as it was
(`Record.unchanged_of_error`).
-/

set_option autoImplicit false

namespace LiveRecord.Record

/-- The record after a write at a path, if nothing obstructs the walk. -/
def set? (config : EditConfig) (value : Value) : Path → Value → Option Value
  | [], _ => some value
  | segment :: rest, record =>
    (set? config value rest (slot segment record)).bind (put? config segment · record)

variable {config : EditConfig} {value record after : Value} {segment : Segment} {path : Path}

/-- Walks along paths of the same names are the same. -/
theorem set?_congr {p q : Path} (h : p.names = q.names) :
    set? config value p = set? config value q := by
  induction p generalizing q with
  | nil =>
    obtain rfl : q = [] := List.map_eq_nil_iff.mp h.symm
    rfl
  | cons a p ih =>
    obtain ⟨b, q, rfl, hname, hrest⟩ := List.map_eq_cons_iff.mp h.symm
    funext record
    rw [set?, set?, ih hrest.symm, slot_congr hname]
    simp only [put?_congr hname]

theorem set?_cons_eq_some_iff : set? config value (segment :: path) record = some after ↔
    ∃ below, set? config value path (slot segment record) = some below ∧
      put? config segment below record = some after :=
  Option.bind_eq_some_iff

theorem set?_null (h : path ≠ []) : set? config value path .null = none := by
  obtain ⟨segment, rest, rfl⟩ := List.exists_cons_of_ne_nil h
  exact Option.bind_eq_none_iff.mpr fun below _ ↦ rfl

/-- Nothing obstructs a walk through objects that it makes itself. -/
theorem exists_set?_emptyObject (config : EditConfig) (value : Value) (path : Path) :
    ∃ after, set? config value path .emptyObject = some after := by
  induction path with
  | nil => exact ⟨value, rfl⟩
  | cons segment rest ih =>
    obtain ⟨below, hbelow⟩ := ih
    exact ⟨_, set?_cons_eq_some_iff.mpr ⟨below, hbelow, rfl⟩⟩

/-! ### Slots that are entered -/

theorem entered_ne_null : entered value ≠ .null := by
  cases value <;> simp [entered, Value.isNull]

/-- What is entered can be replaced. -/
theorem exists_put?_of_slot (config : EditConfig) (below : Value)
    (h : slot segment record ≠ .null) :
    ∃ after, put? config segment below record = some after := by
  cases hchild : child? segment record with
  | some old => exact exists_put? (put?_of_child? config hchild) below
  | none =>
    rw [slot_of_child?_eq_none hchild] at h
    cases record with
    | object fields => exact ⟨_, rfl⟩
    | _ => contradiction

/-- A slot in which a walk is obstructed was there before, as it is. -/
theorem child?_of_obstructed (hslot : slot segment record ≠ .null)
    (h : set? config value path (slot segment record) = none) :
    child? segment record = some (slot segment record) := by
  have hmade : slot segment record ≠ .emptyObject := by
    intro hempty
    obtain ⟨after, hafter⟩ := exists_set?_emptyObject config value path
    rw [hempty, hafter] at h
    contradiction
  cases hchild : child? segment record with
  | none =>
    rw [slot_of_child?_eq_none hchild] at hslot hmade
    split at hslot
    case isTrue hobject => exact absurd (if_pos hobject) hmade
    case isFalse => contradiction
  | some below =>
    have hentered := slot_of_child? hchild
    have hbelow : below ≠ .null := by
      rintro rfl
      exact hmade hentered
    rw [hentered, entered_of_ne_null hbelow]

/-! ### Writes as walks -/

section Steps

variable {before rest : Path} {next : Segment} {below : Value} {error : Option PathError}

/-- At the last segment of its path, a write puts its value. -/
theorem setBelow_singleton (config : EditConfig) (value : Value) (before : Path) (segment : Segment)
    (record : Value) :
    (∃ after, put? config segment value record = some after ∧
      setBelow config value before [segment] record = (after, none)) ∨
    (put? config segment value record = none ∧
      ∃ error, setBelow config value before [segment] record = (record, some error)) := by
  cases record with
  | object fields => exact .inl ⟨_, rfl, rfl⟩
  | array items =>
    cases hposition : segment.position? with
    | none =>
      right
      simp [put?, setBelow, hposition]
    | some position =>
      simp only [put?, setBelow, hposition, Option.bind_some]
      split
      · exact .inl ⟨_, rfl, rfl⟩
      · split
        · exact .inl ⟨_, rfl, rfl⟩
        · exact .inr ⟨rfl, _, rfl⟩
  | _ => exact .inr ⟨rfl, _, rfl⟩

/-- Before that, a write goes on in a slot and puts back what came of it. -/
theorem setBelow_cons (hslot : slot segment record ≠ .null)
    (hwritten : setBelow config value (before ++ [segment]) (next :: rest) (slot segment record) =
      (below, error))
    (hput : put? config segment below record = some after) :
    setBelow config value before (segment :: next :: rest) record = (after, error) := by
  cases put?_eq_some_iff.mp hput with
  | field fields =>
    rw [slot] at hwritten
    rw [setBelow, hwritten]
  | @item items position hposition hthere =>
    have hitem : items[position]? = some items[position] := List.getElem?_eq_getElem hthere
    rw [slot, hposition, Option.bind_some, hitem, Option.map_some, Option.getD_some] at hwritten
    simp only [setBelow, hposition, hitem, hwritten]
  | @append items hposition hallowed =>
    refine absurd ?_ hslot
    rw [slot, hposition, Option.bind_some, List.getElem?_eq_none (Nat.le_refl _)]
    rfl

/-- A write fails where there is nothing to enter. -/
theorem setBelow_of_slot_eq_null (config : EditConfig) (value : Value) (before rest : Path)
    (next : Segment) (hslot : slot segment record = .null) :
    ∃ error,
      setBelow config value before (segment :: next :: rest) record = (record, some error) := by
  cases record with
  | object fields => exact absurd hslot entered_ne_null
  | array items =>
    cases hposition : segment.position? with
    | none =>
      refine ⟨.keyOnSequence (before ++ [segment]) segment.fieldName, ?_⟩
      simp only [setBelow, hposition]
    | some position =>
      cases hitem : items[position]? with
      | none =>
        refine ⟨.indexOutOfBounds (before ++ [segment]) position items.length, ?_⟩
        simp only [setBelow, hposition, hitem]
      | some item =>
        have hchild : child? segment (.array items) = some item := by
          rw [child?, hposition, Option.bind_some, hitem]
        exact absurd ((slot_of_child? hchild).symm.trans hslot) entered_ne_null
  | _ => exact ⟨_, rfl⟩

end Steps

/-- A write below a value is a walk, or it fails and leaves the value as it was. -/
theorem setBelow_cases (config : EditConfig) (value : Value) (before path : Path) (record : Value) :
    (∃ after, set? config value path record = some after ∧
      setBelow config value before path record = (after, none)) ∨
    (set? config value path record = none ∧
      ∃ error, setBelow config value before path record = (record, some error)) := by
  induction path generalizing before record with
  | nil => exact .inl ⟨value, rfl, rfl⟩
  | cons segment rest ih =>
    cases rest with
    | nil => exact setBelow_singleton config value before segment record
    | cons next rest =>
      by_cases hslot : slot segment record = .null
      case pos =>
        refine .inr ⟨?_, setBelow_of_slot_eq_null config value before rest next hslot⟩
        rw [set?, hslot, set?_null (List.cons_ne_nil next rest), Option.bind_none]
      case neg =>
        rcases ih (before ++ [segment]) (slot segment record) with
          ⟨below, hbelow, hwritten⟩ | ⟨hobstructed, error, hwritten⟩
        · obtain ⟨after, hput⟩ := exists_put?_of_slot config below hslot
          exact .inl ⟨after, set?_cons_eq_some_iff.mpr ⟨below, hbelow, hput⟩,
            setBelow_cons hslot hwritten hput⟩
        · have hback := put?_of_child? config (child?_of_obstructed hslot hobstructed)
          refine .inr ⟨?_, error, setBelow_cons hslot hwritten hback⟩
          rw [set?, hobstructed, Option.bind_none]

/-- A write below a value that fails is an obstructed walk, and leaves the value as it was. -/
theorem setBelow_of_error {before : Path} {error : PathError}
    (h : (setBelow config value before path record).2 = some error) :
    set? config value path record = none ∧
      (setBelow config value before path record).1 = record := by
  rcases setBelow_cases config value before path record with ⟨_, -, hset⟩ | ⟨hnone, _, hset⟩
  · rw [hset] at h
    contradiction
  · exact ⟨hnone, by rw [hset]⟩

theorem set_eq_none_iff : set config path value record = (after, none) ↔
    path ≠ [] ∧ set? config value path record = some after := by
  unfold set
  split
  case isTrue hempty => simp [hempty]
  case isFalse hne =>
    rcases setBelow_cases config value [] path record with ⟨_, hwalk, hset⟩ | ⟨hwalk, error, hset⟩
    · simp [hne, hwalk, hset]
    · simp [hwalk, hset]

theorem fst_set_of_error {error : PathError} (h : (set config path value record).2 = some error) :
    (set config path value record).1 = record := by
  unfold set at h ⊢
  split
  case isTrue => rfl
  case isFalse hne =>
    rw [if_neg hne] at h
    exact (setBelow_of_error h).2

/-- A write that fails, at a path or at a written path, leaves the record as it was. -/
theorem unchanged_of_error (config : EditConfig) (value record : Value) :
    (∀ (path : Path) (error : PathError), (set config path value record).2 = some error →
      (set config path value record).1 = record) ∧
    (∀ (field : String) (error : PathError), (setField config field value record).2 = some error →
      (setField config field value record).1 = record) := by
  refine ⟨fun path error h ↦ fst_set_of_error h, fun field error h ↦ ?_⟩
  unfold setField at h ⊢
  split
  case h_1 => rfl
  case h_2 path hparse =>
    rw [hparse] at h
    exact fst_set_of_error h

/-- Nothing is appended to an array on the way to a slot behind its end. -/
theorem unchanged_behind_array :
    let record : Value := .object [("a", .object [("n", .null), ("xs", .array [.string "x"])])]
    let path : Path := [.key "a", .key "xs", .index 1, .key "b"]
    ((set {} path (.bool true) record).2 = some (.indexOutOfBounds (path.take 3) 1 1) ∧
      (set {} path (.bool true) record).1 = record) ∧
    ((setField {} "a.xs.one" (.bool true) record).2 =
        some (.keyOnSequence [.key "a", .key "xs", .key "one"] "one") ∧
      (setField {} "a.xs.one" (.bool true) record).1 = record) := by
  intro record path
  have hset : (set {} path (.bool true) record).2 = some (.indexOutOfBounds (path.take 3) 1 1) := by
    decide +kernel
  have hfield : (setField {} "a.xs.one" (.bool true) record).2 =
      some (.keyOnSequence [.key "a", .key "xs", .key "one"] "one") := by
    decide +kernel
  have hunchanged := unchanged_of_error {} (.bool true) record
  exact ⟨⟨hset, hunchanged.1 _ _ hset⟩, hfield, hunchanged.2 _ _ hfield⟩

end LiveRecord.Record
