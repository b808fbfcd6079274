/-! # Texts

Texts are lists of characters where they are taken apart, and strings otherwise.  Here is what the rest of
the library takes them apart with: blanks and letter case, lines, and spans of bytes.  Numbers that come
from texts have to fit into machine words, whose sizes are at the end.
-/

namespace CodeOutline.Text

/-! ## Blanks

The blanks are the characters with the White_Space property: the ASCII ones, the next
line and no-break space characters, and the spaces and separators of the general
punctuation and ideographic blocks.
-/

def blankRanges : List (Nat × Nat) :=
  [(0x9, 0xD), (0x20, 0x20), (0x85, 0x85), (0xA0, 0xA0), (0x1680, 0x1680), (0x2000, 0x200A),
   (0x2028, 0x2029), (0x202F, 0x202F), (0x205F, 0x205F), (0x3000, 0x3000)]

def isBlank (c : Char) : Bool :=
  blankRanges.any fun r => r.1 ≤ c.toNat && c.toNat ≤ r.2

def trimEnd (text : List Char) : List Char :=
  (text.reverse.dropWhile isBlank).reverse

def trim (text : List Char) : List Char :=
  trimEnd (text.dropWhile isBlank)

/-! ## Letter case

Names of languages, file extensions and keywords are compared without regard to case,
and all of them are written in ASCII.  A character can only be told from another by such
a comparison if its lower-case form is an ASCII letter, and besides `A` to `Z` the
Kelvin sign is the only character with that property: `foldCase` maps these and leaves
every other character as it is.
-/

/-- The lower-case form of a character whose lower-case form is an ASCII letter; any
    other character is left alone. -/
def foldChar (c : Char) : Char :=
  if c = '\u212a' then 'k' else c.toLower

def foldCase (text : String) : String :=
  String.ofList (text.toList.map foldChar)

def lowerAscii (text : String) : String :=
  String.ofList (text.toList.map Char.toLower)

/-! ## Lines

A text is cut at every line feed, and one carriage return at the end of a line belongs
to the line break.  The number of lines is therefore one more than the number of line
feeds: the empty text has one empty line, and a final line feed is followed by a last
empty line.
-/

/-- The pieces of a text between the characters `sep`; there is always at least one. -/
def splitOnChar (sep : Char) : List Char → List (List Char)
  | [] => [[]]
  | c :: rest =>
    if c = sep then [] :: splitOnChar sep rest
    else
      match splitOnChar sep rest with
      | [] => [[c]]
      | piece :: pieces => (c :: piece) :: pieces

def dropReturn (line : List Char) : List Char :=
  match line.reverse with
  | '\r' :: front => front.reverse
  | _ => line

def lines (text : List Char) : List (List Char) :=
  (splitOnChar '\n' text).map dropReturn

/-- The text up to the first line break, or all of it.  A carriage return is part of the
    line break only when a line feed follows. -/
def firstLine (text : List Char) : List Char :=
  match splitOnChar '\n' text with
  | [] => []
  | [only] => only
  | first :: _ => dropReturn first

structure Source where
  lines : List String
deriving Repr, DecidableEq

namespace Source

def ofText (text : String) : Source :=
  ⟨(Text.lines text.toList).map String.ofList⟩

def line? (source : Source) (i : Nat) : Option String :=
  source.lines[i]?

def size (source : Source) : Nat :=
  source.lines.length

end Source

/-! ## Spans of bytes

Syntax nodes say where they stand in a text by the bytes of its UTF-8 form.  A span has a
text only if both its ends fall between two characters.
-/

def dropBytes : Nat → List Char → Option (List Char)
  | 0, text => some text
  | _ + 1, [] => none
  | n + 1, c :: rest => if c.utf8Size ≤ n + 1 then dropBytes (n + 1 - c.utf8Size) rest else none

def takeBytes : Nat → List Char → Option (List Char)
  | 0, _ => some []
  | _ + 1, [] => none
  | n + 1, c :: rest =>
    if c.utf8Size ≤ n + 1 then (takeBytes (n + 1 - c.utf8Size) rest).map (c :: ·) else none

def span? (text : List Char) (start stop : Nat) : Option (List Char) :=
  (dropBytes start text).bind (takeBytes (stop - start))

end CodeOutline.Text

/-! ## Sizes of words

Lines and kinds have to fit into 32 bits, sizes and counts into 64, and everything else at least into a
double. -/

namespace CodeOutline.Word

def max32 : Nat := 0xFFFFFFFF

def max64 : Nat := 0xFFFFFFFFFFFFFFFF

def maxSigned32 : Nat := 0x7FFFFFFF

def maxSigned64 : Nat := 0x7FFFFFFFFFFFFFFF

/-- The least number that is too large for a double: halfway between the largest double and the
    power of two above it. -/
def doubleLimit : Nat := Nat.pow 2 1024 - Nat.pow 2 970

end CodeOutline.Word
