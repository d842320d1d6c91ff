import LiveRecord.Path.Error

/-!
The written form of a path, as the names of form inputs have it.

The form is pieces between separators, and a piece is a name followed by indexes in brackets, where
either part may be missing but not both. Printing writes every segment as its field name, so a
printed index is read back as the key of the same place.
-/

set_option autoImplicit false

namespace LiveRecord.Path

/-- The index between two brackets: digits, with or without a plus in front. -/
def index? (digits : List Char) : Option UInt64 :=
  let unsigned := match digits with
    | '+' :: rest => rest
    | _ => digits
  ((Decimal.read? unsigned).filter (· < Decimal.bound)).map Nat.toUInt64

/-- The indexes in brackets after a name. -/
def suffixes : List Char → Except Unreadable Path
  | [] => .ok []
  | '[' :: inside =>
    let digits := inside.takeWhile (· != ']')
    let closed := inside.dropWhile (· != ']')
    if closed = [] then .error .unclosedBracket
    else
      match index? digits with
      | none => .error (.badIndex (String.ofList digits))
      | some position =>
        match suffixes closed.tail with
        | .error why => .error why
        | .ok path => .ok (.index position :: path)
  | _ :: _ => .error .textAfterIndex
termination_by text => text.length
decreasing_by
  have := (List.dropWhile_sublist (· != ']') (l := inside)).length_le
  simp only [List.length_tail, List.length_cons]
  omega

/-- The segments of one piece between separators. -/
def piece (text : List Char) : Except Unreadable Path :=
  let name := text.takeWhile (· != '[')
  if text = [] then .error .emptySegment
  else if ']' ∈ name then .error .strayBracket
  else
    match suffixes (text.dropWhile (· != '[')) with
    | .error why => .error why
    | .ok path => .ok (if name = [] then path else .key (String.ofList name) :: path)

/-- The segments of the pieces, up to the first piece that is none. -/
def pieces : List (List Char) → Except Unreadable Path
  | [] => .ok []
  | first :: others =>
    match piece first with
    | .error why => .error why
    | .ok path =>
      match pieces others with
      | .error why => .error why
      | .ok rest => .ok (path ++ rest)

/-- Reads a written path. -/
def parse (separator : Char) (input : String) : Except PathError Path :=
  if input = "" then .error .emptyPath
  else
    match pieces (input.toList.splitOn separator) with
    | .error why => .error (.unreadable input why)
    | .ok path => .ok path

/-- The field names with the separator between them. -/
def dotted (separator : Char) (path : Path) : String :=
  String.ofList ([separator].intercalate (path.map fun segment ↦ segment.fieldName.toList))

end LiveRecord.Path
