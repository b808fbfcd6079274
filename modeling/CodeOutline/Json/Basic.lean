/-! # JSON values

A JSON document as a value.  Objects keep their members in the order they were written,
repeated keys included.  Of a number only its being a natural number matters; any other
number is kept as it was written.

`Fault` tells why a text cannot be read: it ends too early, it is not JSON (or goes beyond
the limits of the reader), or it is JSON of another shape than the one asked for.
-/

namespace CodeOutline

inductive Json where
  | null
  | bool (value : Bool)
  | natural (value : Nat)
  /-- A number that is not a natural number, as it is written. -/
  | decimal (text : String)
  | string (text : String)
  | array (items : List Json)
  | object (members : List (String × Json))
deriving Repr, Inhabited

namespace Json

inductive Fault where
  | endOfText
  /-- The text is not JSON, or goes beyond the limits on nesting and numbers. -/
  | malformed
  | mismatch
deriving DecidableEq, Repr

abbrev Reader (α : Type) := StateT (List Char) (Except Fault) α

/-- The number of arrays and objects that may be open at the same time. -/
def nestingLimit : Nat := 127

end Json

end CodeOutline
