/-!
The fields of an object: values under distinct names, kept in ascending order of the names.

Looking a name up stops at the first greater name, where `insert` would put it. Therefore the laws
of the two operations (`find?_insert_self`, `find?_insert_of_ne`, `insert_of_find?`,
`insert_insert`, `insert_comm`) hold of every list, sorted or not. Fields that are made from pairs are
sorted and stay so (`sorted_ofPairs`, `Sorted.insert`, `Sorted.erase`), and of sorted fields all are
found (`Sorted.find?_eq_some_iff`).
-/

set_option autoImplicit false

namespace LiveRecord

/-- Named values in ascending order of their names. -/
abbrev Fields (ν : Type) := List (String × ν)

namespace Fields

variable {ν : Type}

def find? (key : String) : Fields ν → Option ν
  | [] => none
  | (name, value) :: rest =>
    if key < name then none
    else if key = name then some value
    else find? key rest

/-- Stores a value under a name, in place of the one that was there. -/
def insert (key : String) (value : ν) : Fields ν → Fields ν
  | [] => [(key, value)]
  | (name, old) :: rest =>
    if key < name then (key, value) :: (name, old) :: rest
    else if key = name then (key, value) :: rest
    else (name, old) :: insert key value rest

def erase (key : String) (fields : Fields ν) : Fields ν := fields.filter (·.1 != key)

/-- Fields from pairs in any order. Of two values under one name the later one stays. -/
def ofPairs (pairs : List (String × ν)) : Fields ν :=
  pairs.foldl (fun fields pair ↦ insert pair.1 pair.2 fields) []

@[simp] theorem find?_nil (key : String) : find? key ([] : Fields ν) = none := rfl

theorem find?_insert_self (key : String) (value : ν) (fields : Fields ν) :
    find? key (insert key value fields) = some value := by
  induction fields with
  | nil => simp [insert, find?]
  | cons field rest ih =>
    simp only [insert]
    split
    · simp [find?]
    · split
      · simp [find?]
      · simp_all [find?]

theorem find?_insert_of_ne {key other : String} (h : other ≠ key) (value : ν) (fields : Fields ν) :
    find? other (insert key value fields) = find? other fields := by
  induction fields with
  | nil => simp [insert, find?, h]
  | cons field rest ih =>
    simp only [insert]
    split
    case isTrue hlt =>
      by_cases hother : other < key
      · simp [find?, hother, String.lt_trans hother hlt]
      · simp [find?, hother, h]
    case isFalse hlt =>
      split
      case isTrue heq => subst heq; simp [find?, h]
      case isFalse hne => simp [find?, ih]

/-- Storing what is there already changes nothing. -/
theorem insert_of_find? {key : String} {value : ν} {fields : Fields ν}
    (h : find? key fields = some value) : insert key value fields = fields := by
  induction fields with
  | nil => simp at h
  | cons field rest ih =>
    obtain ⟨name, old⟩ := field
    simp only [find?] at h
    simp only [insert]
    split at h
    · simp at h
    · split at h
      case isTrue hlt heq => simp_all
      case isFalse hlt hne => simp [hlt, hne, ih h]

/-- Of two values stored under one name the later one stays. -/
theorem insert_insert (key : String) (value earlier : ν) (fields : Fields ν) :
    insert key value (insert key earlier fields) = insert key value fields := by
  induction fields with
  | nil => simp [insert]
  | cons field rest ih =>
    simp only [insert]
    split
    · simp [insert]
    · split
      · simp [insert]
      · simp_all [insert]

theorem insert_comm_of_lt {a b : String} (h : a < b) (x y : ν) (fields : Fields ν) :
    insert a x (insert b y fields) = insert b y (insert a x fields) := by
  have hba : ¬ b < a := String.lt_asymm h
  have hne : b ≠ a := by
    rintro rfl
    exact String.lt_irrefl _ h
  induction fields with
  | nil => simp [insert, h, hba, hne]
  | cons field rest ih =>
    obtain ⟨name, old⟩ := field
    -- `a` goes in front of a name, or onto it, where `b` does not go behind it
    by_cases hb : b < name
    · simp [insert, hb, String.lt_trans h hb, h, hba, hne]
    by_cases heqb : b = name
    · subst heqb
      simp [insert, h, hba, hne]
    by_cases ha : a < name
    · simp [insert, hb, heqb, ha, hba, hne]
    by_cases heqa : a = name
    · subst heqa
      simp [insert, hba, hne]
    · simp [insert, hb, heqb, ha, heqa, ih]

/-- Values under different names can be stored in any order. -/
theorem insert_comm {a b : String} (h : a ≠ b) (x y : ν) (fields : Fields ν) :
    insert a x (insert b y fields) = insert b y (insert a x fields) := by
  by_cases hab : a < b
  · exact insert_comm_of_lt hab x y fields
  · have hba : b < a := Decidable.byContradiction fun hba ↦
      h (String.le_antisymm (String.not_lt.mp hba) (String.not_lt.mp hab))
    exact (insert_comm_of_lt hba y x fields).symm

/-! ### The order of the names -/

/-- The names ascend, so that no two of them are the same. -/
def Sorted (fields : Fields ν) : Prop := fields.Pairwise (·.1 < ·.1)

section Sorted

variable {fields : Fields ν} {key : String} {value : ν}

theorem eq_or_mem_of_mem_insert {field : String × ν} (h : field ∈ insert key value fields) :
    field = (key, value) ∨ field ∈ fields := by
  induction fields with
  | nil => exact .inl (List.mem_singleton.mp h)
  | cons head rest ih =>
    simp only [insert] at h
    split at h
    · exact List.mem_cons.mp h
    · split at h
      · exact (List.mem_cons.mp h).imp_right (List.mem_cons_of_mem head)
      · rcases List.mem_cons.mp h with rfl | hrest
        · exact .inr List.mem_cons_self
        · exact (ih hrest).imp_right (List.mem_cons_of_mem head)

theorem Sorted.insert (h : fields.Sorted) (key : String) (value : ν) :
    (insert key value fields).Sorted := by
  induction fields with
  | nil => exact List.pairwise_singleton _ _
  | cons head rest ih =>
    obtain ⟨name, old⟩ := head
    obtain ⟨hhead, hrest⟩ := List.pairwise_cons.mp h
    simp only [Fields.insert]
    split
    case isTrue hlt =>
      refine List.pairwise_cons.mpr ⟨fun field hfield ↦ ?_, h⟩
      rcases List.mem_cons.mp hfield with rfl | hfield
      · exact hlt
      · exact String.lt_trans hlt (hhead field hfield)
    case isFalse hnlt =>
      split
      case isTrue heq =>
        subst heq
        exact List.pairwise_cons.mpr ⟨hhead, hrest⟩
      case isFalse hne =>
        refine List.pairwise_cons.mpr ⟨fun field hfield ↦ ?_, ih hrest⟩
        rcases eq_or_mem_of_mem_insert hfield with rfl | hfield
        · exact Decidable.byContradiction fun hnot ↦
            hne (String.le_antisymm (String.not_lt.mp hnot) (String.not_lt.mp hnlt))
        · exact hhead field hfield

theorem Sorted.erase (h : fields.Sorted) (key : String) : (erase key fields).Sorted :=
  List.Pairwise.filter _ h

theorem sorted_ofPairs (pairs : List (String × ν)) : (ofPairs pairs).Sorted := by
  suffices hfold : ∀ fields : Fields ν, fields.Sorted →
      Sorted (pairs.foldl (fun fields pair ↦ Fields.insert pair.1 pair.2 fields) fields) from
    hfold [] List.Pairwise.nil
  induction pairs with
  | nil => exact fun _ h ↦ h
  | cons pair rest ih => exact fun _ h ↦ ih _ (h.insert pair.1 pair.2)

/-- All that there is is found: the search stops where no name can follow that is meant. -/
theorem Sorted.find?_eq_some_iff (h : fields.Sorted) :
    find? key fields = some value ↔ (key, value) ∈ fields := by
  induction fields with
  | nil => simp
  | cons head rest ih =>
    obtain ⟨name, old⟩ := head
    obtain ⟨hhead, hrest⟩ := List.pairwise_cons.mp h
    have hbelow (hle : key ≤ name) : (key, value) ∉ rest := fun hmem ↦
      absurd (hhead _ hmem) (String.not_lt.mpr hle)
    simp only [find?, List.mem_cons, Prod.mk.injEq]
    split
    case isTrue hlt =>
      have hne : key ≠ name := fun heq ↦ String.lt_irrefl name (heq ▸ hlt)
      simp [hne, hbelow (String.not_lt.mp (String.lt_asymm hlt))]
    case isFalse hnlt =>
      split
      case isTrue heq => simp [heq, eq_comm, heq ▸ hbelow (heq ▸ String.le_refl key)]
      case isFalse hne => simp [hne, ih hrest]

end Sorted

end Fields

end LiveRecord
