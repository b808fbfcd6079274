import CodeOutline.Json.Basic
import CodeOutline.Text.Basic

/-! # JSON numbers

A number is read as a significand of at most 64 bits with a decimal exponent.  Digits that
no longer fit are not looked at: before the point they raise the exponent, and behind it
they are dropped.  A number that is too large for a double is malformed, and whether it is
depends on the significand and the power of ten after each has been rounded to 53 bits.
-/

namespace CodeOutline.Json

def digitValue (c : Char) : Nat :=
  c.toNat - '0'.toNat

/-- Appends digits to a number as long as it stays within `limit`; gives the number and how
    many digits are left over. -/
def absorb (limit : Nat) : Nat → List Char → Nat × Nat
  | n, [] => (n, 0)
  | n, c :: rest =>
    if n * 10 + digitValue c ≤ limit then absorb limit (n * 10 + digitValue c) rest
    else (n, rest.length + 1)

/-- A natural number rounded to 53 significant bits, a tie going to the even neighbour. -/
def round53 (n : Nat) : Nat :=
  let drop := n.log2 + 1 - 53
  let unit := Nat.pow 2 drop
  let low := n % unit
  let kept := n / unit
  if low * 2 > unit || (low * 2 == unit && kept % 2 == 1) then (kept + 1) * unit else kept * unit

/-- Whether `significand * 10 ^ exponent` is too large for a double. -/
def tooLarge (significand : Nat) (exponent : Int) : Bool :=
  significand != 0 && exponent ≥ 0 &&
    (exponent > 308
      || round53 significand * round53 (Nat.pow 10 exponent.toNat) ≥ Word.doubleLimit)

def withinRange (significand : Nat) (exponent : Int) (rest : List Char) :
    Except Fault (List Char) :=
  if tooLarge significand exponent then .error .malformed else .ok rest

/-- Reads the digits of an exponent, `up` telling its sign. -/
def readExponentDigits (significand : Nat) (base : Int) (up : Bool) (text : List Char) :
    Except Fault (List Char) :=
  match text with
  | [] => .error .endOfText
  | c :: _ =>
    if c.isDigit then
      let (value, left) := absorb Word.maxSigned32 0 (text.takeWhile Char.isDigit)
      let rest := text.dropWhile Char.isDigit
      if left > 0 then
        if up && significand != 0 then .error .malformed else .ok rest
      else withinRange significand (if up then base + value else base - value) rest
    else .error .malformed

def readExponent (significand : Nat) (base : Int) (text : List Char) :
    Except Fault (List Char) :=
  match text with
  | '+' :: rest => readExponentDigits significand base true rest
  | '-' :: rest => readExponentDigits significand base false rest
  | _ => readExponentDigits significand base true text

def readTail (significand : Nat) (base : Int) (text : List Char) : Except Fault (List Char) :=
  match text with
  | 'e' :: rest => readExponent significand base rest
  | 'E' :: rest => readExponent significand base rest
  | _ => withinRange significand base text

def readFraction (significand : Nat) (base : Int) (text : List Char) :
    Except Fault (List Char) :=
  let digits := text.takeWhile Char.isDigit
  let rest := text.dropWhile Char.isDigit
  let (value, left) := absorb Word.max64 significand digits
  if digits.isEmpty then .error (if rest.isEmpty then .endOfText else .malformed)
  else readTail value (base - (digits.length - left : Nat)) rest

/-- Reads what follows the digits before the point.  Without a point or an exponent, and with
    all digits taken, the number is an integer. -/
def readAfterInteger (significand left : Nat) (text : List Char) :
    Except Fault (Bool × List Char) :=
  match text with
  | '.' :: rest => (readFraction significand left rest).map (false, ·)
  | 'e' :: rest => (readExponent significand left rest).map (false, ·)
  | 'E' :: rest => (readExponent significand left rest).map (false, ·)
  | _ =>
    if left = 0 then .ok (true, text)
    else (withinRange significand left text).map (false, ·)

/-- Reads a number without its sign: whether it is an integer, its significand, and the rest
    of the text. -/
def readUnsigned (text : List Char) : Except Fault (Bool × Nat × List Char) :=
  match text with
  | [] => .error .endOfText
  | '0' :: rest =>
    if rest.head?.any Char.isDigit then .error .malformed
    else (readAfterInteger 0 0 rest).map fun (whole, rest) => (whole, 0, rest)
  | c :: _ =>
    if c.isDigit then
      let (value, left) := absorb Word.max64 0 (text.takeWhile Char.isDigit)
      (readAfterInteger value left (text.dropWhile Char.isDigit)).map
        fun (whole, rest) => (whole, value, rest)
    else .error .malformed

def readNumber (text : List Char) : Except Fault (Json × List Char) :=
  let written := fun rest : List Char => Json.decimal (String.ofList (text.take (text.length - rest.length)))
  match text with
  | '-' :: digits =>
    match readUnsigned digits with
    | .error fault => .error fault
    | .ok (_, _, rest) => .ok (written rest, rest)
  | _ =>
    match readUnsigned text with
    | .error fault => .error fault
    | .ok (whole, value, rest) => .ok (if whole then .natural value else written rest, rest)

/-! ## Numbers that are passed over -/

def skipExponent (text : List Char) : Except Fault (List Char) :=
  let digits :=
    match text with
    | '+' :: rest => rest
    | '-' :: rest => rest
    | _ => text
  if digits.head?.any Char.isDigit then .ok (digits.dropWhile Char.isDigit)
  else .error .malformed

def skipTail (text : List Char) : Except Fault (List Char) :=
  match text with
  | 'e' :: rest => skipExponent rest
  | 'E' :: rest => skipExponent rest
  | _ => .ok text

def skipAfterInteger (text : List Char) : Except Fault (List Char) :=
  match text with
  | '.' :: rest =>
    if rest.head?.any Char.isDigit then skipTail (rest.dropWhile Char.isDigit)
    else .error .malformed
  | _ => skipTail text

/-- Passes over a number without its sign.  Its size does not matter here, and a number that
    breaks off is malformed even at the end of the text. -/
def skipUnsigned (text : List Char) : Except Fault (List Char) :=
  match text with
  | '0' :: rest =>
    if rest.head?.any Char.isDigit then .error .malformed else skipAfterInteger rest
  | c :: _ =>
    if c.isDigit then skipAfterInteger (text.dropWhile Char.isDigit) else .error .malformed
  | [] => .error .malformed

end CodeOutline.Json
