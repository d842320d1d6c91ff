/-!
The configuration of edits.
-/

set_option autoImplicit false

namespace LiveRecord

structure EditConfig where
  /-- Stands between the segments of a written path. -/
  separator : Char := '.'
  /-- Whether a write to the position after the last item of an array appends an item. -/
  appendAtEnd : Bool := true
deriving DecidableEq, Repr

end LiveRecord
