import LiveRecord.Config.Basic
import LiveRecord.Json.Read

/-!
Reading a configuration from a text.

A configuration is written as an object with the fields `path_separator` and
`append_at_sequence_end`, or as an array of the two in this order. What is missing keeps its default
and unknown fields are passed over. The text is read in one pass from left to right, and the answer
to a bad text is the first fault of that pass.
-/

set_option autoImplicit false

namespace LiveRecord.EditConfig

open Json

/-- The fault of a value that is wanted to be of another kind: its own first fault if it has one. Of
an array and of an object the bracket is enough. -/
def otherKind (text : List Char) : Fault :=
  match text with
  | '[' :: _ => .mistyped
  | '{' :: _ => .mistyped
  | _ =>
    match scalar .read text with
    | .error fault => fault
    | .ok _ => .mistyped

/-- A string of one character. -/
def character (text : List Char) : Except Fault (Char × List Char) :=
  match skipBlanks text with
  | '"' :: inside =>
    match quoted .read none [] inside with
    | .error fault => .error fault
    | .ok (s, rest) =>
      match s.toList with
      | [c] => .ok (c, rest)
      | _ => .error .mistyped
  | visible => .error (otherKind visible)

/-- A truth value. -/
def flag (text : List Char) : Except Fault (Bool × List Char) :=
  match skipBlanks text with
  | 't' :: text =>
    match word "rue".toList text with
    | .error fault => .error fault
    | .ok rest => .ok (true, rest)
  | 'f' :: text =>
    match word "alse".toList text with
    | .error fault => .error fault
    | .ok rest => .ok (false, rest)
  | visible => .error (otherKind visible)

theorem length_lt_of_character {text rest : List Char} {c : Char}
    (h : character text = .ok (c, rest)) : rest.length < text.length := by
  unfold character at h
  split at h
  case h_1 hblanks =>
    split at h
    · simp at h
    case h_2 hquoted =>
      split at h
      · simp only [Except.ok.injEq, Prod.mk.injEq] at h
        exact h.2 ▸ Nat.lt_trans (length_lt_of_quoted hquoted) (length_lt_of_skipBlanks_eq hblanks)
      · simp at h
  · simp at h

theorem length_lt_of_flag {text rest : List Char} {b : Bool} (h : flag text = .ok (b, rest)) :
    rest.length < text.length := by
  unfold flag at h
  split at h
  case h_1 hblanks =>
    split at h
    · simp at h
    case h_2 hword =>
      simp only [Except.ok.injEq, Prod.mk.injEq] at h
      exact h.2 ▸ Nat.lt_of_le_of_lt (length_le_of_word hword) (length_lt_of_skipBlanks_eq hblanks)
  case h_2 hblanks =>
    split at h
    · simp at h
    case h_2 hword =>
      simp only [Except.ok.injEq, Prod.mk.injEq] at h
      exact h.2 ▸ Nat.lt_of_le_of_lt (length_le_of_word hword) (length_lt_of_skipBlanks_eq hblanks)
  · simp at h

/-- The fields that have been read so far. -/
structure Given where
  separator : Option Char := none
  appendAtEnd : Option Bool := none

def Given.config (given : Given) : EditConfig where
  separator := given.separator.getD ({} : EditConfig).separator
  appendAtEnd := given.appendAtEnd.getD ({} : EditConfig).appendAtEnd

/-- One field, from its name on. A known field that is given twice is refused at its name. -/
def field (given : Given) (text : List Char) : Except Fault (Given × List Char) :=
  match key .read text with
  | .error fault => .error fault
  | .ok (name, text) =>
    if name = "path_separator" ∧ given.separator.isSome then .error .mistyped
    else if name = "append_at_sequence_end" ∧ given.appendAtEnd.isSome then .error .mistyped
    else
      match colon text with
      | .error fault => .error fault
      | .ok text =>
        if name = "path_separator" then
          match character text with
          | .error fault => .error fault
          | .ok (c, rest) => .ok ({ given with separator := some c }, rest)
        else if name = "append_at_sequence_end" then
          match flag text with
          | .error fault => .error fault
          | .ok (b, rest) => .ok ({ given with appendAtEnd := some b }, rest)
        else
          match skipValue text with
          | .error fault => .error fault
          | .ok rest => .ok (given, rest)

theorem length_lt_of_field {given given' : Given} {text rest : List Char}
    (h : field given text = .ok (given', rest)) : rest.length < text.length := by
  unfold field at h
  split at h
  · simp at h
  case h_2 hkey =>
    have := length_lt_of_key hkey
    split at h
    · simp at h
    · split at h
      · simp at h
      · split at h
        · simp at h
        case h_2 hcolon =>
          have := length_lt_of_colon hcolon
          split at h
          · split at h
            · simp at h
            case h_2 hvalue =>
              simp only [Except.ok.injEq, Prod.mk.injEq] at h
              have := h.2 ▸ length_lt_of_character hvalue
              omega
          · split at h
            · split at h
              · simp at h
              case h_2 hvalue =>
                simp only [Except.ok.injEq, Prod.mk.injEq] at h
                have := h.2 ▸ length_lt_of_flag hvalue
                omega
            · split at h
              · simp at h
              case h_2 hvalue =>
                simp only [Except.ok.injEq, Prod.mk.injEq] at h
                have := h.2 ▸ length_lt_of_skipValue hvalue
                omega

set_option linter.unusedVariables false

/-- The fields from one on, to the end of the object. -/
def fields (given : Given) (text : List Char) : Except Fault (Given × List Char) :=
  match hfield : field given text with
  | .error fault => .error fault
  | .ok (given, text') =>
    match hblanks : skipBlanks text' with
    | [] => .error .truncated
    | '}' :: rest => .ok (given, rest)
    | ',' :: rest => fields given rest
    | _ :: _ => .error .malformed
termination_by text.length
decreasing_by
  exact Nat.lt_trans (length_lt_of_skipBlanks_eq hblanks) (length_lt_of_field hfield)

/-- An object, after its opening bracket. -/
def object (text : List Char) : Except Fault (Given × List Char) :=
  match skipBlanks text with
  | '}' :: rest => .ok ({}, rest)
  | visible => fields {} visible

/-- Whether an array goes on with an item: the text from the item on, or nothing at its end. -/
def nextItem (first : Bool) (text : List Char) : Except Fault (Option (List Char)) :=
  match skipBlanks text with
  | [] => .error .truncated
  | ']' :: _ => .ok none
  | ',' :: rest =>
    if first then .ok (some (',' :: rest))
    else
      match skipBlanks rest with
      | [] => .error .truncated
      | ']' :: _ => .error .malformed
      | item => .ok (some item)
  | item => if first then .ok (some item) else .error .malformed

/-- The end of an array. -/
def endOfItems (text : List Char) : Except Fault (List Char) :=
  match skipBlanks text with
  | [] => .error .truncated
  | ']' :: rest => .ok rest
  | _ :: _ => .error .malformed

/-- An array, after its opening bracket: the separator and the truth value, or less. -/
def array (text : List Char) : Except Fault (Given × List Char) := do
  match ← nextItem true text with
  | none => return ({}, ← endOfItems text)
  | some item =>
    let (c, text) ← character item
    match ← nextItem false text with
    | none => return ({ separator := some c }, ← endOfItems text)
    | some item =>
      let (b, text) ← flag item
      return ({ separator := some c, appendAtEnd := some b }, ← endOfItems text)

/-- Reads a configuration. -/
def ofText (text : String) : Except Fault EditConfig := do
  let (given, rest) ← match skipBlanks text.toList with
    | '{' :: inside => object inside
    | '[' :: inside => array inside
    | visible => throw (otherKind visible)
  if skipBlanks rest = [] then return given.config else throw .malformed

end LiveRecord.EditConfig
