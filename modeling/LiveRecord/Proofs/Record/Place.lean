import LiveRecord.Proofs.Path.Position
import LiveRecord.Record.Read
import LiveRecord.Record.Write

/-!
# Places one segment below a value

A walk reads a value one segment below another one (`Record.child?`), enters what it finds there
(`Record.slot`) and puts a value in its place (`Record.put?`). What can be put where is said once
(`Record.Put`). A value that was put is found again, segments with other names find what they found
before, and values at places with different names can be put in any order.
-/

set_option autoImplicit false

namespace LiveRecord.Record

/-- What a walk enters one segment below a value. Null cannot be entered. -/
def slot (segment : Segment) (value : Value) : Value :=
  match value with
  | .object fields => entered ((Fields.find? segment.fieldName fields).getD .null)
  | .array items => ((segment.position?.bind (items[·]?)).map entered).getD .null
  | _ => .null

/-- Puts a value one segment below another one, if there is room for it. -/
def put? (config : EditConfig) (segment : Segment) (below : Value) : Value → Option Value
  | .object fields => some (.object (Fields.insert segment.fieldName below fields))
  | .array items => segment.position?.bind fun position ↦
    if position < items.length then some (.array (items.set position below))
    else if position = items.length ∧ config.appendAtEnd then some (.array (items ++ [below]))
    else none
  | _ => none

/-- The ways in which a value is put one segment below another one. -/
inductive Put (config : EditConfig) (segment : Segment) (below : Value) : Value → Value → Prop
  | field (fields : Fields Value) :
    Put config segment below (.object fields)
      (.object (Fields.insert segment.fieldName below fields))
  | item {items : List Value} {position : Nat} (hposition : segment.position? = some position)
    (hthere : position < items.length) :
    Put config segment below (.array items) (.array (items.set position below))
  | append {items : List Value} (hposition : segment.position? = some items.length)
    (hallowed : config.appendAtEnd) :
    Put config segment below (.array items) (.array (items ++ [below]))

variable {config : EditConfig} {a b : Segment} {x y value after after' : Value} {path : Path}

theorem put?_eq_some_iff : put? config a x value = some after ↔ Put config a x value after := by
  constructor
  · intro h
    cases value with
    | object fields =>
      obtain rfl := Option.some.inj h
      exact .field fields
    | array items =>
      obtain ⟨position, hposition, hput⟩ := Option.bind_eq_some_iff.mp h
      split at hput
      case isTrue hthere =>
        obtain rfl := Option.some.inj hput
        exact .item hposition hthere
      case isFalse =>
        obtain ⟨⟨rfl, hallowed⟩, hafter⟩ := Option.ite_none_right_eq_some.mp hput
        obtain rfl := Option.some.inj hafter
        exact .append hposition hallowed
    | _ => contradiction
  · rintro (fields | ⟨hposition, hthere⟩ | ⟨hposition, hallowed⟩)
    · rfl
    · rw [put?, hposition, Option.bind_some, if_pos hthere]
    · rw [put?, hposition, Option.bind_some, if_neg (Nat.lt_irrefl _), if_pos ⟨rfl, hallowed⟩]

/-! ### Segments of one name -/

theorem child?_congr (h : a.fieldName = b.fieldName) : child? a value = child? b value := by
  cases value <;> simp [child?, h, Segment.position?_congr h]

theorem slot_congr (h : a.fieldName = b.fieldName) : slot a value = slot b value := by
  cases value <;> simp [slot, h, Segment.position?_congr h]

theorem put?_congr (h : a.fieldName = b.fieldName) :
    put? config a x value = put? config b x value := by
  cases value <;> simp [put?, h, Segment.position?_congr h]

/-- Paths of the same names read the same. -/
theorem get?_congr {p q : Path} (h : p.names = q.names) : get? p = get? q := by
  induction p generalizing q with
  | nil =>
    cases q with
    | nil => rfl
    | cons b q => contradiction
  | cons a p ih =>
    cases q with
    | nil => contradiction
    | cons b q =>
      obtain ⟨hname, hrest⟩ := List.cons.inj h
      funext value
      rw [get?, get?, child?_congr hname, ih hrest]

/-! ### Entering -/

theorem entered_of_ne_null (h : value ≠ .null) : entered value = value := by
  cases value <;> first | rfl | contradiction

theorem get?_entered (h : path ≠ []) : get? path (entered value) = get? path value := by
  cases value with
  | null =>
    cases path with
    | nil => contradiction
    | cons segment rest => rfl
  | _ => rfl

theorem slot_of_child? (h : child? a value = some x) : slot a value = entered x := by
  cases value with
  | object fields =>
    rw [child?] at h
    rw [slot, h, Option.getD_some]
  | array items =>
    rw [child?] at h
    rw [slot, h, Option.map_some, Option.getD_some]
  | _ => contradiction

/-- Where nothing stands, an object is entered or nothing is. -/
theorem slot_of_child?_eq_none (h : child? a value = none) :
    slot a value = if value.kind = .object then .emptyObject else .null := by
  cases value with
  | object fields =>
    rw [child?] at h
    rw [slot, h]
    rfl
  | array items =>
    rw [child?] at h
    rw [slot, h]
    rfl
  | _ => rfl

/-- Entering a slot does not change what stands below it. -/
theorem get?_slot (h : path ≠ []) : get? path (slot a value) = get? (a :: path) value := by
  cases hchild : child? a value with
  | some x => rw [slot_of_child? hchild, get?_entered h, get?, hchild, Option.bind_some]
  | none =>
    obtain ⟨segment, rest, rfl⟩ := List.exists_cons_of_ne_nil h
    rw [slot_of_child?_eq_none hchild, get?.eq_2 _ a, hchild]
    split <;> rfl

/-! ### Reading what was put -/

theorem kind_of_put? (h : put? config a x value = some after) : after.kind = value.kind := by
  cases put?_eq_some_iff.mp h <;> rfl

theorem child?_of_put? (h : put? config a x value = some after) : child? a after = some x := by
  cases put?_eq_some_iff.mp h with
  | field fields => exact Fields.find?_insert_self _ _ _
  | item hposition hthere =>
    rw [child?, hposition, Option.bind_some, List.getElem?_set_self hthere]
  | append hposition hallowed =>
    rw [child?, hposition, Option.bind_some, List.getElem?_concat_length]

/-- An item at the end of a list is at no other position. -/
theorem getElem?_concat_of_ne {items : List Value} {i : Nat} (h : i ≠ items.length) :
    (items ++ [x])[i]? = items[i]? := by
  rw [List.getElem?_append]
  split
  · rfl
  · rw [List.getElem?_eq_none (by simp; omega), List.getElem?_eq_none (by omega)]

theorem child?_of_put?_of_ne (h : put? config a x value = some after)
    (hne : b.fieldName ≠ a.fieldName) : child? b after = child? b value := by
  have hplace : ∀ n, a.position? = some n → b.position? ≠ some n := fun n ha hb ↦
    hne (Segment.fieldName_eq_of_position? hb ha)
  cases put?_eq_some_iff.mp h with
  | field fields => exact Fields.find?_insert_of_ne hne _ _
  | @item items position hposition hthere =>
    cases hb : b.position? with
    | none => simp only [child?, hb, Option.bind_none]
    | some n =>
      have hn : position ≠ n := by
        rintro rfl
        exact hplace _ hposition hb
      simp only [child?, hb, Option.bind_some]
      exact List.getElem?_set_ne hn
  | @append items hposition hallowed =>
    cases hb : b.position? with
    | none => simp only [child?, hb, Option.bind_none]
    | some n =>
      have hn : n ≠ items.length := by
        rintro rfl
        exact hplace _ hposition hb
      simp only [child?, hb, Option.bind_some]
      exact getElem?_concat_of_ne hn

theorem slot_of_put? (h : put? config a x value = some after) : slot a after = entered x :=
  slot_of_child? (child?_of_put? h)

theorem slot_of_put?_of_ne (h : put? config a x value = some after)
    (hne : b.fieldName ≠ a.fieldName) : slot b after = slot b value := by
  have hchild := child?_of_put?_of_ne h hne
  cases hold : child? b value with
  | some y => rw [slot_of_child? hold, slot_of_child? (hchild.trans hold)]
  | none =>
    rw [slot_of_child?_eq_none hold, slot_of_child?_eq_none (hchild.trans hold), kind_of_put? h]

/-! ### Putting again -/

/-- Whether there is room does not depend on what is put. -/
theorem exists_put? (h : put? config a x value = some after) (y : Value) :
    ∃ after', put? config a y value = some after' := by
  cases put?_eq_some_iff.mp h with
  | field fields => exact ⟨_, put?_eq_some_iff.mpr (.field fields)⟩
  | item hposition hthere => exact ⟨_, put?_eq_some_iff.mpr (.item hposition hthere)⟩
  | append hposition hallowed => exact ⟨_, put?_eq_some_iff.mpr (.append hposition hallowed)⟩

/-- Putting back what stands there changes nothing. -/
theorem put?_of_child? (config : EditConfig) (h : child? a value = some x) :
    put? config a x value = some value := by
  cases value with
  | object fields => rw [put?, Fields.insert_of_find? h]
  | array items =>
    obtain ⟨position, hposition, hitem⟩ := Option.bind_eq_some_iff.mp h
    obtain ⟨hthere, rfl⟩ := List.getElem?_eq_some_iff.mp hitem
    rw [put?_eq_some_iff.mpr (.item hposition hthere), List.set_getElem_self]
  | _ => contradiction

/-- Of two values put at one place the later one stays. -/
theorem put?_of_put? (h : put? config a x value = some after) :
    put? config a y after = put? config a y value := by
  cases put?_eq_some_iff.mp h with
  | field fields => rw [put?, put?, Fields.insert_insert]
  | @item items position hposition hthere =>
    have hthere' : position < (items.set position x).length := by rwa [List.length_set]
    rw [put?_eq_some_iff.mpr (.item hposition hthere),
      put?_eq_some_iff.mpr (.item hposition hthere'), List.set_set]
  | @append items hposition hallowed =>
    have hthere : items.length < (items ++ [x]).length := by simp
    rw [put?_eq_some_iff.mpr (.append hposition hallowed),
      put?_eq_some_iff.mpr (.item hposition hthere), List.set_append_right _ _ (Nat.le_refl _),
      Nat.sub_self, List.set_cons_zero]

theorem put?_set_append {items : List Value} {position : Nat}
    (ha : a.position? = some position) (hthere : position < items.length)
    (hb : b.position? = some items.length) (hallowed : config.appendAtEnd) :
    ∃ both, put? config b y (.array (items.set position x)) = some both ∧
      put? config a x (.array (items ++ [y])) = some both := by
  have hlength : b.position? = some (items.set position x).length := by rwa [List.length_set]
  have hthere' : position < (items ++ [y]).length := by
    rw [List.length_append]
    omega
  refine ⟨_, put?_eq_some_iff.mpr (.append hlength hallowed), ?_⟩
  rw [← List.set_append_left _ _ hthere]
  exact put?_eq_some_iff.mpr (.item ha hthere')

/-- Values at places with different names can be put in any order. -/
theorem put?_comm (hx : put? config a x value = some after)
    (hy : put? config b y value = some after') (hne : a.fieldName ≠ b.fieldName) :
    ∃ both, put? config b y after = some both ∧ put? config a x after' = some both := by
  have hplace : ∀ n, a.position? = some n → b.position? ≠ some n := fun n ha hb ↦
    hne (Segment.fieldName_eq_of_position? ha hb)
  cases put?_eq_some_iff.mp hx with
  | field fields =>
    obtain rfl := Option.some.inj hy
    exact ⟨_, rfl, congrArg (some ∘ Value.object) (Fields.insert_comm hne _ _ _)⟩
  | @item items m hm hmthere =>
    cases put?_eq_some_iff.mp hy with
    | @item _ n hn hnthere =>
      have hmn : m ≠ n := by
        rintro rfl
        exact hplace _ hm hn
      have hmthere' : m < (items.set n y).length := by rwa [List.length_set]
      have hnthere' : n < (items.set m x).length := by rwa [List.length_set]
      refine ⟨_, put?_eq_some_iff.mpr (.item hn hnthere'), ?_⟩
      rw [List.set_comm _ _ hmn]
      exact put?_eq_some_iff.mpr (.item hm hmthere')
    | append hn hallowed => exact put?_set_append hm hmthere hn hallowed
  | append hm hallowed =>
    cases put?_eq_some_iff.mp hy with
    | item hn hnthere =>
      obtain ⟨both, hboth, hboth'⟩ := put?_set_append hn hnthere hm hallowed
      exact ⟨both, hboth', hboth⟩
    | append hn _ => exact absurd hn (hplace _ hm)

end LiveRecord.Record
