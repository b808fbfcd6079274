/-! # Globs

A glob describes paths.  Most characters stand for themselves; a question mark is one byte
that is not a slash, a star is any number of them, and brackets hold a class of bytes.  Two
stars between slashes stand for any number of folders.  Braces hold alternatives with commas
between them.  A backslash takes the special meaning off the next character.
-/

namespace CodeOutline

inductive Token where
  | literal (c : Char)
  /-- One byte that is not a slash. -/
  | any
  /-- Any number of bytes that are not slashes. -/
  | star
  /-- Any folders at the front. -/
  | leading
  /-- A slash, or any folders between two slashes. -/
  | middle
  /-- A slash and anything behind it. -/
  | trailing
  /-- One byte inside of the ranges, or outside of them all. -/
  | oneOf (negated : Bool) (ranges : List (Char × Char))
  | either (branches : List (List Token))
deriving Repr

abbrev Glob := List Token

/-! ## Tokens that stand for nothing -/

mutual

def Token.isVoid : Token → Bool
  | .either branches => areVoid branches
  | _ => false

def isVoidGlob : List Token → Bool
  | [] => true
  | token :: rest => token.isVoid && isVoidGlob rest

def areVoid : List (List Token) → Bool
  | [] => true
  | branch :: rest => isVoidGlob branch && areVoid rest

end

/-! ## Classes -/

/-- The ranges of bytes that a range of characters stands for: every byte of its ends for
    itself, except that the last of the first end and the first of the last end make a range. -/
def byteRanges (range : Char × Char) : List (UInt8 × UInt8) :=
  let low := String.utf8EncodeChar range.1
  let high := String.utf8EncodeChar range.2
  let single := fun bytes : List UInt8 => bytes.map fun b => (b, b)
  if range.1 = range.2 then single low
  else single low.dropLast ++ [(low.getLast?.getD 0, high.head?.getD 0)] ++ single (high.drop 1)

def inRanges (ranges : List (Char × Char)) (b : UInt8) : Bool :=
  ranges.any fun range => (byteRanges range).any fun (low, high) => low ≤ b && b ≤ high

end CodeOutline
