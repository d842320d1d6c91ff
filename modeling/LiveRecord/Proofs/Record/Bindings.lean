import Mathlib.Data.List.Basic
import LiveRecord.Proofs.Path.NormalForm
import LiveRecord.Proofs.Record.Continuation
import LiveRecord.Record.Bindings

/-!
# The inputs of a form and the places that they write to

The bindings of a form are collected by looking up fields by name, while reads and writes follow
the path of a binding. Both come to the same item (`Record.get?_of_item?`). The value of the binding
is what stands at its path, but for one case: an item that is an array has no fields, but has
something where the name of the value is a position (`Record.shows_iff`).

A write at the name of an input of an item with fields, or of a null item, changes the value of that
binding. No other binding changes, and no label or path does (`Record.bindings_setField`).
-/

set_option autoImplicit false

namespace LiveRecord

variable {layout : GroupLayout} {record value item after : Value} {binding : FieldBinding}
  {name : String} {g i n : UInt64} {config : EditConfig}

/-- The path of an item of a group. -/
def GroupLayout.itemPath (layout : GroupLayout) (g i : UInt64) : Path :=
  [.key layout.groups, .index g, .key layout.items, .index i]

namespace Record

/-- The item at a position in a group. -/
def item? (layout : GroupLayout) (record : Value) (g i : UInt64) : Option Value :=
  (listField layout.groups record)[g.toNat]?.bind fun group ↦
    (listField layout.items group)[i.toNat]?

/-- The binding at a position in a group. Lists are no longer than positions reach. -/
def binding? (layout : GroupLayout) (record : Value) (g i : UInt64) : Option FieldBinding :=
  (bindings layout record)[g.toNat]?.bind (·[i.toNat]?)

/-! ### Where the items are -/

/-- What is in the list under a field. -/
theorem getElem?_listField_iff {position : Nat} :
    (listField name value)[position]? = some item ↔
      ∃ fields items, value = .object fields ∧ Fields.find? name fields = some (.array items) ∧
        items[position]? = some item := by
  constructor
  · intro h
    cases hfield : value.field? name with
    | none => simp [listField, hfield] at h
    | some found =>
      cases found with
      | array items =>
        cases value with
        | object fields =>
          refine ⟨fields, items, rfl, hfield, ?_⟩
          simpa [listField, hfield, Value.items?] using h
        | _ => contradiction
      | _ => simp [listField, hfield, Value.items?] at h
  · rintro ⟨fields, items, rfl, hfield, hitem⟩
    rw [listField, Value.field?, hfield, Option.bind_some, Value.items?, Option.getD_some, hitem]

theorem get?_of_listField (h : (listField name value)[n.toNat]? = some item) :
    get? [.key name, .index n] value = some item := by
  obtain ⟨fields, items, rfl, hfield, hitem⟩ := getElem?_listField_iff.mp h
  have hlist : child? (.key name) (.object fields) = some (.array items) := hfield
  have hplace : child? (.index n) (.array items) = some item := hitem
  rw [get?, hlist, Option.bind_some, get?, hplace, Option.bind_some, get?_nil]

theorem get?_of_item? (h : item? layout record g i = some item) :
    get? (layout.itemPath g i) record = some item := by
  obtain ⟨group, hgroup, hitem⟩ := Option.bind_eq_some_iff.mp h
  have hpath : layout.itemPath g i =
    [.key layout.groups, .index g] ++ [.key layout.items, .index i] := rfl
  rw [hpath, get?_append, get?_of_listField hgroup, Option.bind_some, get?_of_listField hitem]

/-- Every item has one binding. -/
theorem binding?_eq (layout : GroupLayout) (record : Value) (g i : UInt64) :
    binding? layout record g i =
      (item? layout record g i).map (itemBinding layout g.toNat i.toNat) := by
  rw [binding?, bindings, List.getElem?_mapIdx, item?]
  cases (listField layout.groups record)[g.toNat]? with
  | none => rfl
  | some group => exact List.getElem?_mapIdx

theorem path_itemBinding (layout : GroupLayout) (g i : UInt64) (item : Value) :
    (itemBinding layout g.toNat i.toNat item).path =
      layout.itemPath g i ++ [.key layout.value] := by
  simp [itemBinding, GroupLayout.itemPath]

/-! ### What a binding shows -/

/-- A field that is looked up by name is what stands there, except in an array. -/
theorem field?_getD_eq_iff (name : String) (item : Value) :
    (item.field? name).getD .null = (child? (.key name) item).getD .null ↔
      ∀ inner position, item = .array inner → (Segment.key name).position? = some position →
        inner[position]?.getD .null = .null := by
  cases item with
  | array inner =>
    cases hposition : (Segment.key name).position? with
    | none => simp [Value.field?, child?, hposition]
    | some position => simp [Value.field?, child?, hposition, eq_comm]
  | _ => simp [Value.field?, child?, Segment.fieldName]

/-- A binding leads to an item, and has the value of the field of that item. This is what stands at
the path of the binding, or null where nothing does, exactly if the item is no array that has
something else than null at the position that the name of the value is. -/
theorem shows_iff (h : binding? layout record g i = some binding) :
    ∃ item, get? (layout.itemPath g i) record = some item ∧
      binding.path = layout.itemPath g i ++ [.key layout.value] ∧
      binding.value = (item.field? layout.value).getD .null ∧
      (binding.value = (get? binding.path record).getD .null ↔
        ∀ inner position, item = .array inner →
          (Segment.key layout.value).position? = some position →
          inner[position]?.getD .null = .null) := by
  rw [binding?_eq] at h
  obtain ⟨item, hitem, rfl⟩ := Option.map_eq_some_iff.mp h
  have hthere := get?_of_item? hitem
  refine ⟨item, hthere, path_itemBinding layout g i item, rfl, ?_⟩
  have hread : get? (itemBinding layout g.toNat i.toNat item).path record =
      child? (.key layout.value) item := by
    rw [path_itemBinding, get?_append, hthere]
    exact Option.bind_fun_some _
  rw [hread]
  exact field?_getD_eq_iff layout.value item

/-- The name of the value is a position, but the item is an object. -/
theorem shows_numeral :
    let layout : GroupLayout := ⟨"g", "i", "l", "0"⟩
    let record : Value :=
      .object [("g", .array [.object [("i", .array [.object [("0", .int 7)]])]])]
    ∃ binding, binding? layout record 0 0 = some binding ∧ binding.value = .int 7 ∧
      binding.value = (get? binding.path record).getD .null := by
  intro layout record
  obtain ⟨binding, hbinding⟩ := Option.isSome_iff_exists.mp
    (show (binding? layout record 0 0).isSome by decide +kernel)
  obtain ⟨item, hitem, -, hvalue, hshows⟩ := shows_iff hbinding
  obtain rfl : .object [("0", .int 7)] = item := by
    have hthere : get? (layout.itemPath 0 0) record = some (.object [("0", .int 7)]) := by
      decide +kernel
    exact Option.some.inj (hthere.symm.trans hitem)
  refine ⟨binding, hbinding, hvalue.trans (by decide +kernel), hshows.mpr ?_⟩
  intro inner position harray
  contradiction

/-- The item is an array, and its input shows nothing, although it writes to the place of `x`. -/
theorem shows_nothing :
    let layout : GroupLayout := ⟨"g", "i", "l", "0"⟩
    let record : Value := .object [("g", .array [.object [("i", .array [.array [.string "x"]])]])]
    ∃ binding, binding? layout record 0 0 = some binding ∧ binding.value = .null ∧
      get? binding.path record = some (.string "x") :=
  ⟨_, rfl, rfl, by decide +kernel⟩

/-! ### Writes to inputs -/

/-- What is written to a place in the list under a field is found there, and nowhere else in the
list. -/
theorem exists_set?_listField (config : EditConfig)
    (h : (listField name value)[n.toNat]? = some item) (below : Value) :
    ∃ after, set? config below [.key name, .index n] value = some after ∧
      listField name after = (listField name value).set n.toNat below := by
  obtain ⟨fields, items, rfl, hfield, hitem⟩ := getElem?_listField_iff.mp h
  obtain ⟨hthere, -⟩ := List.getElem?_eq_some_iff.mp hitem
  have hlist : child? (.key name) (.object fields) = some (.array items) := hfield
  have hslot : slot (.key name) (.object fields) = .array items := slot_of_child? hlist
  have hput : put? config (.index n) below (.array items) =
    some (.array (items.set n.toNat below)) := put?_eq_some_iff.mpr (.item rfl hthere)
  have hwalk : set? config below [.index n] (.array items) =
    some (.array (items.set n.toNat below)) := set?_cons_eq_some_iff.mpr ⟨below, rfl, hput⟩
  refine ⟨_, set?_cons_eq_some_iff.mpr ⟨_, by rw [hslot, hwalk], rfl⟩, ?_⟩
  simp [listField, Value.field?, Value.items?, Segment.fieldName, Fields.find?_insert_self, hfield]

/-- A value that is written below a place in the list under a field. -/
theorem exists_set?_below_listField {rest : Path} {below : Value}
    (h : (listField name value)[n.toNat]? = some item)
    (hbelow : set? config record rest (entered item) = some below) :
    ∃ after, set? config record ([.key name, .index n] ++ rest) value = some after ∧
      listField name after = (listField name value).set n.toNat below := by
  obtain ⟨after, hafter, hlist⟩ := exists_set?_listField config h below
  refine ⟨after, ?_, hlist⟩
  rw [set?_append config record rest (List.cons_ne_nil _ _) (get?_of_listField h), hbelow,
    Option.bind_some, hafter]

/-- A write at a printed path is the walk along the path. -/
theorem setField_dotted_iff {path : Path} (hne : path ≠ [])
    (hprintable : path.Printable config.separator) :
    setField config (path.dotted config.separator) value record = (after, none) ↔
      set? config value path record = some after := by
  have hkeys : path.keys ≠ [] := by simpa [Path.keys, Path.names] using hne
  rw [setField, Path.parse_dotted hne hprintable]
  simp only [set_eq_none_iff, set?_congr (Path.names_keys path), ne_eq, hkeys, not_false_eq_true,
    true_and]

theorem bindings_of_listField (layout : GroupLayout) {group : Value} (g : Nat)
    (h : listField layout.groups after = (listField layout.groups record).set g group) :
    bindings layout after = (bindings layout record).set g (groupBindings layout g group) := by
  rw [bindings, h, List.mapIdx_set, ← bindings]

theorem groupBindings_of_listField (layout : GroupLayout) (g i : Nat)
    (h : listField layout.items after = (listField layout.items value).set i item) :
    groupBindings layout g after =
      (groupBindings layout g value).set i (itemBinding layout g i item) := by
  rw [groupBindings, h, List.mapIdx_set, ← groupBindings]

/-- The names that lead to a value can stand in the name of its input. -/
theorem printable_itemBinding
    (hnames : Path.Printable '.' [.key layout.groups, .key layout.items, .key layout.value])
    (g i : UInt64) (item : Value) :
    Path.Printable '.' (itemBinding layout g.toNat i.toNat item).path := by
  have hindexes : Path.Printable '.' ([g, i].map .index) :=
    Path.printable_index fun _ _ ↦ Decimal.not_mem_toDigits rfl _
  rw [path_itemBinding]
  simp only [Path.Printable, GroupLayout.itemPath, List.map_cons, List.map_nil, List.cons_append,
    List.nil_append, Path.names_cons, Path.names_nil, List.forall_mem_cons] at hnames hindexes ⊢
  obtain ⟨hgroups, hitems, hvalue, hnil⟩ := hnames
  obtain ⟨hg, hi, -⟩ := hindexes
  exact ⟨hgroups, hg, hitems, hi, hvalue, hnil⟩

theorem field?_entered (name : String) (item : Value) :
    (entered item).field? name = item.field? name := by
  cases item <;> rfl

/-- An item whose value is replaced has the binding with that value. -/
theorem itemBinding_insert {fields : Fields Value} (hlabel : layout.label ≠ layout.value)
    (hentered : entered item = .object fields) (g i : Nat) (value : Value) :
    itemBinding layout g i (.object (Fields.insert layout.value value fields)) =
      { itemBinding layout g i item with value } := by
  have hkept : Fields.find? layout.label (Fields.insert layout.value value fields) =
      item.field? layout.label := by
    rw [Fields.find?_insert_of_ne hlabel, ← field?_entered, hentered, Value.field?]
  simp only [itemBinding, Value.field?, hkept, Fields.find?_insert_self, Option.getD_some]

/-- A write at the name of an input changes the value of its binding and nothing else in the
bindings.

Assumes: the names that lead to the value are not empty and have no dots and brackets; the label of
an item is not its value; the item has fields or is null. -/
theorem bindings_setField
    (hnames : Path.Printable '.' [.key layout.groups, .key layout.items, .key layout.value])
    (hlabel : layout.label ≠ layout.value) (h : binding? layout record g i = some binding)
    (hthere : get? (layout.itemPath g i) record = some item)
    (hfields : item.kind = .object ∨ item = .null) (value : Value) :
    ∃ after, setField {} binding.inputName value record = (after, none) ∧
      bindings layout after = (bindings layout record).modify g.toNat
        (·.modify i.toNat fun binding ↦ { binding with value }) := by
  rw [binding?_eq] at h
  obtain ⟨found, hfound, rfl⟩ := Option.map_eq_some_iff.mp h
  obtain rfl : found = item := Option.some.inj ((get?_of_item? hfound).symm.trans hthere)
  obtain ⟨group, hgroup, hitem⟩ := Option.bind_eq_some_iff.mp hfound
  obtain ⟨fields, hentered⟩ : ∃ fields, entered found = .object fields := by
    rcases hfields with hobject | rfl
    · cases found with
      | object fields => exact ⟨fields, rfl⟩
      | _ => contradiction
    · exact ⟨[], rfl⟩
  have hgroupEntered : entered group = group := by
    obtain ⟨fields, items, rfl, -⟩ := getElem?_listField_iff.mp hitem
    rfl
  -- the item, the group and the record afterwards, from the inside out
  have hinner : set? {} value [.key layout.value] (entered found) =
      some (.object (Fields.insert layout.value value fields)) := by
    rw [hentered]
    rfl
  obtain ⟨group', hgroupWalk, hitems⟩ := exists_set?_below_listField hitem hinner
  rw [← hgroupEntered] at hgroupWalk
  obtain ⟨after, hwalk, hgroups⟩ := exists_set?_below_listField hgroup hgroupWalk
  refine ⟨after, ?_, ?_⟩
  · have hwalk' : set? {} value (itemBinding layout g.toNat i.toNat found).path record =
        some after := by
      rw [path_itemBinding]
      exact hwalk
    exact (setField_dotted_iff (List.cons_ne_nil _ _) (printable_itemBinding hnames g i found)).mpr
      hwalk'
  · have hplace : (bindings layout record)[g.toNat]? =
        some (groupBindings layout g.toNat group) := by
      rw [bindings, List.getElem?_mapIdx, hgroup, Option.map_some]
    have hinside : (groupBindings layout g.toNat group)[i.toNat]? =
        some (itemBinding layout g.toNat i.toNat found) := by
      rw [groupBindings, List.getElem?_mapIdx, hitem, Option.map_some]
    rw [bindings_of_listField layout _ hgroups, groupBindings_of_listField layout _ _ hitems,
      itemBinding_insert hlabel hentered, List.modify_eq_set_getElem?, hplace,
      Option.map_eq_map, Option.map_some, Option.getD_some, List.modify_eq_set_getElem?, hinside,
      Option.map_eq_map, Option.map_some, Option.getD_some]

/-- The second of two items is null, all lists have the same name, and the name of the value is
that of a position. -/
theorem bindings_setField_null :
    let layout : GroupLayout := ⟨"g", "g", "l", "1"⟩
    let record : Value := .object [("g", .array [.object [("g",
      .array [.object [("1", .int 7), ("l", .string "a")], .null])]])]
    ∃ binding after, binding? layout record 0 1 = some binding ∧
      setField {} binding.inputName (.bool true) record = (after, none) ∧
      bindings layout after = (bindings layout record).modify 0
        (·.modify 1 fun binding ↦ { binding with value := .bool true }) := by
  intro layout record
  obtain ⟨binding, hbinding⟩ := Option.isSome_iff_exists.mp
    (show (binding? layout record 0 1).isSome by decide +kernel)
  obtain ⟨after, hset, hafter⟩ := bindings_setField (by decide) (by decide) hbinding
    (show get? (layout.itemPath 0 1) record = some .null by decide +kernel) (.inr rfl) (.bool true)
  exact ⟨binding, after, hbinding, hset, hafter⟩

end Record

end LiveRecord
