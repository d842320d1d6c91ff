import LiveRecord.Path.Basic

/-!
What can be wrong with a path: with its written form, or with the record that it leads into.
-/

set_option autoImplicit false

namespace LiveRecord

/-- Why a text is no written path. -/
inductive Path.Unreadable
  | emptySegment
  | strayBracket
  | unclosedBracket
  | badIndex (digits : String)
  | textAfterIndex
deriving DecidableEq, Repr

def Path.Unreadable.reason : Path.Unreadable → String
  | emptySegment => "empty segment"
  | strayBracket => "unbalanced ']'"
  | unclosedBracket => "unclosed '['"
  | badIndex digits => "invalid index '" ++ digits ++ "'"
  | textAfterIndex => "text after index"

inductive PathError
  | emptyPath
  | unreadable (input : String) (why : Path.Unreadable)
  /-- At `path` stands neither an object nor an array, and the path goes on. -/
  | typeMismatch (path : Path) (found : Value.Kind)
  /-- The last segment of `path` points behind the end of an array of that length. -/
  | indexOutOfBounds (path : Path) (index length : Nat)
  /-- The last segment of `path` has no position, and an array stands there. -/
  | keyOnSequence (path : Path) (key : String)
deriving DecidableEq, Repr

namespace PathError

/-- What a path can lead into. -/
def containers : String := "object or array"

def message : PathError → String
  | emptyPath => "empty path"
  | unreadable input why => "cannot parse path '" ++ input ++ "': " ++ why.reason
  | typeMismatch path found =>
    "type mismatch at " ++ path.display ++ ": expected " ++ containers ++ ", found " ++ found.name
  | indexOutOfBounds path index length =>
    "index " ++ index.repr ++ " out of bounds (len: " ++ length.repr ++ ") at path " ++ path.display
  | keyOnSequence path key =>
    "sequence at " ++ path.display ++ " cannot be addressed by key '" ++ key ++ "'"

/-- Whether the path itself is at fault, and not only its written form. -/
def isInvalidPath : PathError → Bool
  | unreadable _ _ => false
  | _ => true

end PathError

end LiveRecord
