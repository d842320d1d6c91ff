import LiveRecord.Json.Numeral

/-!
Reading a written value of any depth.

The containers that are open around the place of reading are kept in a list, the innermost first,
so reading needs no recursion on depth: each step leaves a shorter text. With `Care.skip` the same
steps check the form of a value whose content does not matter.
-/

set_option autoImplicit false

namespace LiveRecord.Json

/-- A container whose end has not been reached: the items so far in reverse, or the fields so far
and the name of the field that is being read. -/
inductive Opened
  | array (items : List Value)
  | object (fields : Fields Value) (key : String)

/-- A value that opens no container, at the front of a text. A number that is skipped need not be in
range, and ends too early where it is read but not where it is skipped. -/
def scalar (care : Care) : List Char → Except Fault (Value × List Char)
  | [] => .error .truncated
  | 'n' :: text => (word "ull".toList text).map fun rest ↦ (.null, rest)
  | 't' :: text => (word "rue".toList text).map fun rest ↦ (.bool true, rest)
  | 'f' :: text => (word "alse".toList text).map fun rest ↦ (.bool false, rest)
  | '"' :: text => (quoted care none [] text).map fun (s, rest) ↦ (.string s, rest)
  | c :: text =>
    if c = '-' ∨ c.isDigit then
      match care with
      | .skip => (Numeral.scan .malformed (c :: text)).map fun (_, rest) ↦ (.null, rest)
      | .read =>
        match Numeral.scan .truncated (c :: text) with
        | .error fault => .error fault
        | .ok (numeral, rest) =>
          match numeral.value with
          | none => .error .malformed
          | some value => .ok (value, rest)
    else .error .malformed

theorem length_lt_of_scalar {care : Care} {text rest : List Char} {value : Value}
    (h : scalar care text = .ok (value, rest)) : rest.length < text.length := by
  have of_map {α β : Type} {f : α → β} {r : Except Fault α} {b : β} (h : r.map f = .ok b) :
      ∃ a, r = .ok a ∧ f a = b := by
    cases r with
    | error => simp [Except.map] at h
    | ok a => exact ⟨a, rfl, by simpa [Except.map] using h⟩
  unfold scalar at h
  split at h
  · simp at h
  · obtain ⟨rest', hword, h⟩ := of_map h
    simp only [Prod.mk.injEq] at h
    exact h.2 ▸ Nat.lt_succ_of_le (length_le_of_word hword)
  · obtain ⟨rest', hword, h⟩ := of_map h
    simp only [Prod.mk.injEq] at h
    exact h.2 ▸ Nat.lt_succ_of_le (length_le_of_word hword)
  · obtain ⟨rest', hword, h⟩ := of_map h
    simp only [Prod.mk.injEq] at h
    exact h.2 ▸ Nat.lt_succ_of_le (length_le_of_word hword)
  · obtain ⟨⟨s, rest'⟩, hquoted, h⟩ := of_map h
    simp only [Prod.mk.injEq] at h
    exact h.2 ▸ Nat.lt_succ_of_lt (length_lt_of_quoted hquoted)
  · split at h
    case isFalse => simp at h
    case isTrue =>
      split at h
      · obtain ⟨⟨numeral, rest'⟩, hscan, h⟩ := of_map h
        simp only [Prod.mk.injEq] at h
        exact h.2 ▸ Numeral.length_lt_of_scan hscan
      · split at h
        · simp at h
        case h_2 hscan =>
          split at h
          · simp at h
          · simp only [Except.ok.injEq, Prod.mk.injEq] at h
            exact h.2 ▸ Numeral.length_lt_of_scan hscan

/-- The name of a field. -/
def key (care : Care) (text : List Char) : Except Fault (String × List Char) :=
  match skipBlanks text with
  | [] => .error .truncated
  | '"' :: rest => quoted care none [] rest
  | _ :: _ => .error .malformed

theorem length_lt_of_key {care : Care} {text rest : List Char} {name : String}
    (h : key care text = .ok (name, rest)) : rest.length < text.length := by
  unfold key at h
  split at h
  · simp at h
  case h_2 hblanks =>
    exact Nat.lt_trans (length_lt_of_quoted h) (length_lt_of_skipBlanks_eq hblanks)
  · simp at h

/-- Passes over the colon after the name of a field. -/
def colon (text : List Char) : Except Fault (List Char) :=
  match skipBlanks text with
  | [] => .error .truncated
  | ':' :: rest => .ok rest
  | _ :: _ => .error .malformed

theorem length_lt_of_colon {text rest : List Char} (h : colon text = .ok rest) :
    rest.length < text.length := by
  unfold colon at h
  split at h
  · simp at h
  case h_2 hblanks =>
    simp only [Except.ok.injEq] at h
    exact h ▸ length_lt_of_skipBlanks_eq hblanks
  · simp at h

/-- The name of a field and the colon after it. -/
def keyAndColon (care : Care) (text : List Char) : Except Fault (String × List Char) :=
  match key care text with
  | .error fault => .error fault
  | .ok (name, text) =>
    match colon text with
    | .error fault => .error fault
    | .ok rest => .ok (name, rest)

theorem length_lt_of_keyAndColon {care : Care} {text rest : List Char} {name : String}
    (h : keyAndColon care text = .ok (name, rest)) : rest.length < text.length := by
  unfold keyAndColon at h
  split at h
  · simp at h
  case h_2 hkey =>
    split at h
    · simp at h
    case h_2 hcolon =>
      simp only [Except.ok.injEq, Prod.mk.injEq] at h
      exact h.2 ▸ Nat.lt_trans (length_lt_of_colon hcolon) (length_lt_of_key hkey)

set_option linter.unusedVariables false

mutual

/-- Reads a value inside the containers `opened`, and goes on to the end of the outermost one. -/
def valueIn (care : Care) (opened : List Opened) (text : List Char) :
    Except Fault (Value × List Char) :=
  match hblanks : skipBlanks text with
  | '[' :: inside =>
    match hinside : skipBlanks inside with
    | ']' :: rest => afterValue care opened (.array []) rest
    | _ => valueIn care (.array [] :: opened) inside
  | '{' :: inside =>
    match hinside : skipBlanks inside with
    | '}' :: rest => afterValue care opened .emptyObject rest
    | _ =>
      match hname : keyAndColon care inside with
      | .error fault => .error fault
      | .ok (key, rest) => valueIn care (.object [] key :: opened) rest
  | visible =>
    match hscalar : scalar care visible with
    | .error fault => .error fault
    | .ok (value, rest) => afterValue care opened value rest
termination_by text.length
decreasing_by
  · exact Nat.lt_trans (length_lt_of_skipBlanks_eq hinside) (length_lt_of_skipBlanks_eq hblanks)
  · exact length_lt_of_skipBlanks_eq hblanks
  · exact Nat.lt_trans (length_lt_of_skipBlanks_eq hinside) (length_lt_of_skipBlanks_eq hblanks)
  · exact Nat.lt_trans (length_lt_of_keyAndColon hname) (length_lt_of_skipBlanks_eq hblanks)
  · exact Nat.lt_of_lt_of_le (length_lt_of_scalar hscalar) (hblanks ▸ length_skipBlanks_le text)

/-- Puts a finished value into the innermost open container. -/
def afterValue (care : Care) (opened : List Opened) (value : Value) (text : List Char) :
    Except Fault (Value × List Char) :=
  match opened with
  | [] => .ok (value, text)
  | .array items :: outer =>
    match hblanks : skipBlanks text with
    | [] => .error .truncated
    | ',' :: rest => valueIn care (.array (value :: items) :: outer) rest
    | ']' :: rest => afterValue care outer (.array (value :: items).reverse) rest
    | _ :: _ => .error .malformed
  | .object fields key :: outer =>
    match hblanks : skipBlanks text with
    | [] => .error .truncated
    | ',' :: next =>
      match hname : keyAndColon care next with
      | .error fault => .error fault
      | .ok (key', rest) => valueIn care (.object (fields.insert key value) key' :: outer) rest
    | '}' :: rest => afterValue care outer (.object (fields.insert key value)) rest
    | _ :: _ => .error .malformed
termination_by text.length
decreasing_by
  · exact length_lt_of_skipBlanks_eq hblanks
  · exact length_lt_of_skipBlanks_eq hblanks
  · exact Nat.lt_trans (length_lt_of_keyAndColon hname) (length_lt_of_skipBlanks_eq hblanks)
  · exact length_lt_of_skipBlanks_eq hblanks

end

mutual

theorem length_lt_of_valueIn {care : Care} {opened : List Opened} {text rest : List Char}
    {value : Value} (h : valueIn care opened text = .ok (value, rest)) :
    rest.length < text.length := by
  unfold valueIn at h
  split at h
  case h_1 hblanks =>
    have := length_lt_of_skipBlanks_eq hblanks
    split at h
    case h_1 hinside =>
      have := length_lt_of_skipBlanks_eq hinside
      have := length_le_of_afterValue h
      omega
    · have := length_lt_of_valueIn h
      omega
  case h_2 hblanks =>
    have := length_lt_of_skipBlanks_eq hblanks
    split at h
    case h_1 hinside =>
      have := length_lt_of_skipBlanks_eq hinside
      have := length_le_of_afterValue h
      omega
    · split at h
      · simp at h
      case h_2 hname =>
        have := length_lt_of_keyAndColon hname
        have := length_lt_of_valueIn h
        omega
  case h_3 hblanks =>
    have := length_skipBlanks_le text
    split at h
    · simp at h
    case h_2 hscalar =>
      have := length_lt_of_scalar hscalar
      have := length_le_of_afterValue h
      omega
termination_by text.length
decreasing_by all_goals omega

theorem length_le_of_afterValue {care : Care} {opened : List Opened} {text rest : List Char}
    {value result : Value} (h : afterValue care opened value text = .ok (result, rest)) :
    rest.length ≤ text.length := by
  unfold afterValue at h
  split at h
  · simp_all
  · split at h
    · simp at h
    case h_2 hblanks =>
      have := length_lt_of_skipBlanks_eq hblanks
      have := length_lt_of_valueIn h
      omega
    case h_3 hblanks =>
      have := length_lt_of_skipBlanks_eq hblanks
      have := length_le_of_afterValue h
      omega
    · simp at h
  · split at h
    · simp at h
    case h_2 hblanks =>
      have := length_lt_of_skipBlanks_eq hblanks
      split at h
      · simp at h
      case h_2 hname =>
        have := length_lt_of_keyAndColon hname
        have := length_lt_of_valueIn h
        omega
    case h_3 hblanks =>
      have := length_lt_of_skipBlanks_eq hblanks
      have := length_le_of_afterValue h
      omega
    · simp at h
termination_by text.length
decreasing_by all_goals omega

end

/-- Passes over a value whose content does not matter, and answers with what follows it. -/
def skipValue (text : List Char) : Except Fault (List Char) :=
  match valueIn .skip [] text with
  | .error fault => .error fault
  | .ok (_, rest) => .ok rest

theorem length_lt_of_skipValue {text rest : List Char} (h : skipValue text = .ok rest) :
    rest.length < text.length := by
  unfold skipValue at h
  split at h
  · simp at h
  case h_2 hvalue =>
    simp only [Except.ok.injEq] at h
    exact h ▸ length_lt_of_valueIn hvalue

/-- A text that holds one value and nothing else. -/
def readValue (text : String) : Except Fault Value :=
  match valueIn .read [] text.toList with
  | .error fault => .error fault
  | .ok (value, rest) => if skipBlanks rest = [] then .ok value else .error .malformed

end LiveRecord.Json
