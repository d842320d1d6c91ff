import LiveRecord.Proofs.Path.Grammar
import LiveRecord.Proofs.Path.Position

/-!
# Printed paths

Printing a path writes the names of its segments and no brackets, so what is printed can be read
back as the keys of the same names only (`Path.keys`). It is read back as them exactly if there are
names and each of them can stand as a piece: not empty, and without separators and brackets
(`Path.parse_dotted_iff`).
-/

set_option autoImplicit false

namespace LiveRecord.Path

/-- The path as keys of the same names. -/
def keys (path : Path) : Path := path.names.map .key

/-- Every name can stand as a piece between separators. -/
def Printable (separator : Char) (path : Path) : Prop :=
  ∀ name ∈ path.names, name ≠ "" ∧ separator ∉ name.toList ∧ '[' ∉ name.toList ∧ ']' ∉ name.toList

instance (separator : Char) (path : Path) : Decidable (path.Printable separator) :=
  inferInstanceAs (Decidable (∀ name ∈ path.names, _))

variable {separator : Char} {path part : Path} {name : String} {names : List String}
  {text : List Char} {texts : List (List Char)} {parts : List Path}

theorem names_keys (path : Path) : path.keys.names = path.names := by
  rw [keys, names, List.map_map]
  exact List.map_id _

theorem dotted_eq (separator : Char) (path : Path) : dotted separator path =
    String.ofList ([separator].intercalate (path.names.map String.toList)) := by
  rw [dotted, names, List.map_map]
  rfl

/-- A name that can stand as a piece writes its key. -/
theorem writesPiece_name (hne : name ≠ "") (hopen : '[' ∉ name.toList)
    (hclose : ']' ∉ name.toList) : WritesPiece name.toList [.key name] := by
  have hname : name.toList ≠ [] := fun hempty ↦ hne (String.toList_eq_nil_iff.mp hempty)
  have hpiece := WritesPiece.intro hopen hclose .nil (.inl hname)
  rwa [List.append_nil, named, if_neg hname, String.ofList_toList] at hpiece

/-- A piece that writes keys only is the name of one. -/
theorem WritesPiece.eq_name (h : WritesPiece text part)
    (hkeys : ∀ position, .index position ∉ part) :
    ∃ name, part = [.key name] ∧ text = name.toList ∧
      name ≠ "" ∧ '[' ∉ name.toList ∧ ']' ∉ name.toList := by
  obtain @⟨name, text, positions, hopen, hclose, hsuffixes, hne⟩ := h
  have hpositions : positions = [] := by
    refine List.eq_nil_iff_forall_not_mem.mpr fun position hposition ↦ hkeys position ?_
    exact List.mem_append_right _ (List.mem_map_of_mem hposition)
  subst hpositions
  obtain rfl := hsuffixes.eq_nil_iff.mpr rfl
  have hname : name ≠ [] := hne.resolve_right fun hnone ↦ hnone rfl
  refine ⟨String.ofList name, ?_, ?_⟩
  · rw [named, if_neg hname, List.map_nil, List.append_nil]
  · rw [String.toList_ofList, List.append_nil, Ne, String.ofList_eq_empty_iff]
    exact ⟨rfl, hname, hopen, hclose⟩

/-- Pieces that write keys only are the names of the keys. -/
theorem eq_names_of_writes (h : List.Forall₂ WritesPiece texts parts)
    (hkeys : parts.flatten = names.map .key) :
    texts = names.map String.toList ∧
      ∀ name ∈ names, name ≠ "" ∧ '[' ∉ name.toList ∧ ']' ∉ name.toList := by
  induction h generalizing names with
  | nil =>
    obtain rfl := List.map_eq_nil_iff.mp hkeys.symm
    exact ⟨rfl, by simp⟩
  | @cons text part texts parts hpart _ ih =>
    obtain ⟨name, rfl, rfl, hname⟩ := hpart.eq_name fun position hposition ↦ by
      have hmem : Segment.index position ∈ names.map .key :=
        hkeys ▸ List.mem_append_left parts.flatten hposition
      simp at hmem
    obtain ⟨first, others, rfl, hfirst, hothers⟩ := List.map_eq_cons_iff.mp hkeys.symm
    obtain rfl := Segment.key.inj hfirst
    obtain ⟨rfl, hnames⟩ := ih hothers.symm
    exact ⟨rfl, List.forall_mem_cons.mpr ⟨hname, hnames⟩⟩

theorem parse_dotted (hne : path ≠ []) (hprintable : path.Printable separator) :
    parse separator (dotted separator path) = .ok path.keys := by
  have hparts : List.Forall₂ WritesPiece (path.names.map String.toList)
      (path.names.map fun name ↦ [.key name]) := by
    rw [List.forall₂_map_left_iff, List.forall₂_map_right_iff, List.forall₂_same]
    intro name hname
    obtain ⟨hne, -, hopen, hclose⟩ := hprintable name hname
    exact writesPiece_name hne hopen hclose
  have hseparated : ∀ text ∈ path.names.map String.toList, separator ∉ text := by
    rw [List.forall_mem_map]
    exact fun name hname ↦ (hprintable name hname).2.1
  have hwrites := Writes.intro (by simpa [names] using hne) hseparated hparts
  rw [← dotted_eq, ← List.flatMap_def, ← List.map_eq_flatMap] at hwrites
  exact parse_of_writes hwrites

/-- A printed path is read back as the keys of the same names exactly if it has names and each of
them can stand as a piece. -/
theorem parse_dotted_iff (separator : Char) (path : Path) :
    parse separator (dotted separator path) = .ok path.keys ↔
      path ≠ [] ∧ path.Printable separator := by
  refine ⟨fun h ↦ ?_, fun ⟨hne, hprintable⟩ ↦ parse_dotted hne hprintable⟩
  generalize dotted separator path = input at h
  generalize hread : path.keys = read at h
  obtain @⟨texts, parts, hne, hseparated, hparts⟩ := writes_of_parse h
  obtain ⟨rfl, hnames⟩ := eq_names_of_writes hparts hread.symm
  refine ⟨?_, fun name hname ↦ ?_⟩
  · rintro rfl
    exact hne rfl
  · obtain ⟨hne, hbrackets⟩ := hnames name hname
    exact ⟨hne, hseparated _ (List.mem_map_of_mem hname), hbrackets⟩

/-- The digits of an index can be the separator. -/
example : parse '1' (dotted '1' [.key "a", .index 10]) =
    .error (.unreadable "a110" .emptySegment) := by cbv

end LiveRecord.Path
