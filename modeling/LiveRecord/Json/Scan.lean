/-!
Reading written values from the front of a text: the faults that reading meets, blanks, fixed words
and quoted strings.

A reader takes the characters still unread and answers with what it read and the characters after
it, or with the first fault from left to right. `Care.skip` reads a value that nobody will look at:
its form is checked and its content is not.
-/

set_option autoImplicit false

namespace LiveRecord.Json

/-- The first thing wrong with a text, from left to right. -/
inductive Fault
  /-- The text is not well formed. -/
  | malformed
  /-- The text ends too early. -/
  | truncated
  /-- The text is well formed so far, but says something else than what is wanted here. -/
  | mistyped
deriving DecidableEq, Repr

/-- Whether the content of what is read matters, or its form only. -/
inductive Care
  | read
  | skip
deriving DecidableEq, Repr

def isBlank (c : Char) : Bool := c == ' ' || c == '\n' || c == '\t' || c == '\r'

def skipBlanks (text : List Char) : List Char := text.dropWhile isBlank

theorem length_dropWhile_le {α : Type} (p : α → Bool) (l : List α) :
    (l.dropWhile p).length ≤ l.length :=
  (List.dropWhile_sublist p).length_le

theorem length_skipBlanks_le (text : List Char) : (skipBlanks text).length ≤ text.length :=
  length_dropWhile_le isBlank text

theorem length_lt_of_skipBlanks_eq {text rest : List Char} {c : Char}
    (h : skipBlanks text = c :: rest) : rest.length < text.length := by
  have := length_skipBlanks_le text
  rwa [h, List.length_cons] at this

/-- Passes over a fixed word, and answers with what follows it. -/
def word : List Char → List Char → Except Fault (List Char)
  | [], text => .ok text
  | _ :: _, [] => .error .truncated
  | expected :: word', c :: text =>
    if c = expected then word word' text else .error .malformed

theorem length_le_of_word {expected text rest : List Char} (h : word expected text = .ok rest) :
    rest.length ≤ text.length := by
  induction expected generalizing text with
  | nil => simp_all [word]
  | cons e es ih =>
    cases text with
    | nil => simp [word] at h
    | cons c text =>
      simp only [word] at h
      split at h
      · exact Nat.le_succ_of_le (ih h)
      · simp at h

def hexDigit? (c : Char) : Option Nat :=
  if '0' ≤ c ∧ c ≤ '9' then some (c.toNat - 48)
  else if 'a' ≤ c ∧ c ≤ 'f' then some (c.toNat - 87)
  else if 'A' ≤ c ∧ c ≤ 'F' then some (c.toNat - 55)
  else none

/-- The number that four hexadecimal digits write. -/
def hexUnit? (a b c d : Char) : Option Nat := do
  let a ← hexDigit? a
  let b ← hexDigit? b
  let c ← hexDigit? c
  let d ← hexDigit? d
  return ((a * 16 + b) * 16 + c) * 16 + d

/-- What an escaped sixteen-bit unit adds to a string, after the first half `high` of a surrogate
pair if there is one: the half that now waits for its other half, and the characters completed.
There is no answer where a half stands alone. -/
def addUnit (care : Care) (high : Option Nat) (unit : Nat) : Option (Option Nat × List Char) :=
  match care, high with
  | .skip, _ => some (none, [])
  | .read, some first =>
    if 0xDC00 ≤ unit ∧ unit ≤ 0xDFFF then
      some (none, [Char.ofNat (0x10000 + (first - 0xD800) * 0x400 + (unit - 0xDC00))])
    else none
  | .read, none =>
    if 0xDC00 ≤ unit ∧ unit ≤ 0xDFFF then none
    else if 0xD800 ≤ unit ∧ unit ≤ 0xDBFF then some (some unit, [])
    else some (none, [Char.ofNat unit])

/-- The character that a backslash and this letter write. -/
def simpleEscape? : Char → Option Char
  | '"' => some '"'
  | '\\' => some '\\'
  | '/' => some '/'
  | 'b' => some '\x08'
  | 'f' => some '\x0c'
  | 'n' => some '\n'
  | 'r' => some '\r'
  | 't' => some '\t'
  | _ => none

/-- The rest of a string whose opening quote has been passed, with the characters so far in reverse
and the half of a surrogate pair that waits for its other half. A unit that the text is too short
to hold, measured in bytes, is a text that ends too early. -/
def quoted (care : Care) (high : Option Nat) (done : List Char) :
    List Char → Except Fault (String × List Char)
  | [] => .error .truncated
  | '"' :: rest =>
    if high.isSome then .error .malformed else .ok (String.ofList done.reverse, rest)
  | '\\' :: 'u' :: a :: b :: c :: d :: rest =>
    match (hexUnit? a b c d).bind (addUnit care high) with
    | none => .error .malformed
    | some (high', chars) => quoted care high' (chars ++ done) rest
  | ['\\'] => .error .truncated
  | '\\' :: 'u' :: rest =>
    .error (if (String.ofList rest).utf8ByteSize < 4 then .truncated else .malformed)
  | '\\' :: c :: rest =>
    match high, simpleEscape? c with
    | none, some c' => quoted care none (c' :: done) rest
    | _, _ => .error .malformed
  | c :: rest =>
    if high.isSome || c < ' ' then .error .malformed else quoted care none (c :: done) rest

theorem length_lt_of_quoted {care : Care} {high : Option Nat} {done text rest : List Char}
    {s : String} (h : quoted care high done text = .ok (s, rest)) : rest.length < text.length := by
  fun_induction quoted care high done text <;> simp_all <;> omega

end LiveRecord.Json
