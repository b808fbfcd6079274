import CodeOutline.Text.Basic
import CodeOutline.Toml.Basic

/-! # TOML numbers, dates and times

Integers have 64 bits.  Digits may have single underscores between them.  A decimal number
that is too large for a double is refused, but only if it is positive.  Dates have to exist, and
so have times, with a sixtieth second for leap seconds.
-/

namespace CodeOutline.Toml

/-! ## Digits -/

def readMoreDigits (isDigit : Char → Bool) : List Char → Option (List Char × List Char)
  | '_' :: c :: rest =>
    if isDigit c then (readMoreDigits isDigit rest).map fun (ds, r) => (c :: ds, r) else none
  | ['_'] => none
  | c :: rest =>
    if isDigit c then (readMoreDigits isDigit rest).map fun (ds, r) => (c :: ds, r)
    else some ([], c :: rest)
  | [] => some ([], [])

def readDigits (isDigit : Char → Bool) : List Char → Option (List Char × List Char)
  | c :: rest =>
    if isDigit c then (readMoreDigits isDigit rest).map fun (ds, r) => (c :: ds, r) else none
  | [] => none

def digitsValue (base : Nat) (digits : List Char) : Nat :=
  digits.foldl
    (fun n c =>
      n * base +
        (if c.isDigit then c.toNat - '0'.toNat else c.toLower.toNat - 'a'.toNat + 10))
    0

def integer64? (value : Int) : Option Toml :=
  if -(Word.maxSigned64 : Int) - 1 ≤ value && value ≤ Word.maxSigned64 then some (.integer value)
  else none

/-! ## Numbers -/

def isHexDigit (c : Char) : Bool :=
  c.isDigit || ('a' ≤ c && c ≤ 'f') || ('A' ≤ c && c ≤ 'F')

def readRadix (base : Nat) (isDigit : Char → Bool) (text : List Char) :
    Option (Toml × List Char) := do
  let (digits, rest) ← readDigits isDigit text
  let value ← integer64? (digitsValue base digits)
  return (value, rest)

def isTooLarge (digits : List Char) (exponent : Int) : Bool :=
  let value := digitsValue 10 digits
  let size := (toString value).length + exponent
  value != 0 &&
    (size > 310 ||
      (size > 300 &&
        (if exponent ≥ 0 then value * Nat.pow 10 exponent.toNat ≥ Word.doubleLimit
         else value ≥ Word.doubleLimit * Nat.pow 10 (-exponent).toNat)))

def readExponent : List Char → Option (Int × List Char)
  | 'e' :: rest => signed rest
  | 'E' :: rest => signed rest
  | text => some (0, text)
where
  signed : List Char → Option (Int × List Char)
    | '-' :: rest => do
      let (digits, rest) ← readDigits Char.isDigit rest
      return (-(digitsValue 10 digits : Int), rest)
    | '+' :: rest => do
      let (digits, rest) ← readDigits Char.isDigit rest
      return ((digitsValue 10 digits : Int), rest)
    | text => do
      let (digits, rest) ← readDigits Char.isDigit text
      return ((digitsValue 10 digits : Int), rest)

/-- Reads the digits before the point: a zero by itself, or digits that start with another. -/
def readWhole : List Char → Option (List Char × List Char)
  | '0' :: rest => some (['0'], rest)
  | text => readDigits Char.isDigit text

def readUnsigned (negative : Bool) (text : List Char) : Option (Toml × List Char) := do
  let (whole, rest) ← readWhole text
  let decimal := fun (fraction : List Char) (exponent : Int) (rest : List Char) =>
    if !negative && isTooLarge (whole ++ fraction) (exponent - fraction.length) then none
    else some (Toml.decimal, rest)
  match rest with
  | '.' :: rest =>
    let (fraction, rest) ← readDigits Char.isDigit rest
    let (exponent, rest) ← readExponent rest
    decimal fraction exponent rest
  | c :: _ =>
    if c = 'e' || c = 'E' then
      let (exponent, rest) ← readExponent rest
      decimal [] exponent rest
    else
      let value ← integer64? (if negative then -(digitsValue 10 whole) else digitsValue 10 whole)
      return (value, rest)
  | [] =>
    let value ← integer64? (if negative then -(digitsValue 10 whole) else digitsValue 10 whole)
    return (value, rest)

def readSigned (negative : Bool) : List Char → Option (Toml × List Char)
  | 'i' :: 'n' :: 'f' :: rest => some (.decimal, rest)
  | 'n' :: 'a' :: 'n' :: rest => some (.decimal, rest)
  | text => readUnsigned negative text

def readNumber : List Char → Option (Toml × List Char)
  | '0' :: 'x' :: rest => readRadix 16 isHexDigit rest
  | '0' :: 'o' :: rest => readRadix 8 (fun c => '0' ≤ c && c ≤ '7') rest
  | '0' :: 'b' :: rest => readRadix 2 (fun c => c = '0' || c = '1') rest
  | '+' :: rest => readSigned false rest
  | '-' :: rest => readSigned true rest
  | text => readSigned false text

/-! ## Dates and times -/

def readFixed (count : Nat) (text : List Char) : Option (Nat × List Char) :=
  let digits := text.take count
  if digits.length = count && digits.all Char.isDigit then
    some (digitsValue 10 digits, text.drop count)
  else none

def expect (c : Char) : List Char → Option (List Char)
  | d :: rest => if c = d then some rest else none
  | [] => none

def daysIn (year month : Nat) : Nat :=
  if month = 2 then
    if year % 4 = 0 && (year % 100 ≠ 0 || year % 400 = 0) then 29 else 28
  else if month = 4 || month = 6 || month = 9 || month = 11 then 30
  else 31

def readDate (text : List Char) : Option (List Char) := do
  let (year, rest) ← readFixed 4 text
  let rest ← expect '-' rest
  let (month, rest) ← readFixed 2 rest
  let rest ← expect '-' rest
  let (day, rest) ← readFixed 2 rest
  if 1 ≤ month && month ≤ 12 && 1 ≤ day && day ≤ daysIn year month then some rest else none

def dropFraction (text : List Char) : List Char :=
  match text with
  | '.' :: c :: rest => if c.isDigit then rest.dropWhile Char.isDigit else text
  | _ => text

def readTime (text : List Char) : Option (List Char) := do
  let (hour, rest) ← readFixed 2 text
  let rest ← expect ':' rest
  let (minute, rest) ← readFixed 2 rest
  let rest ← expect ':' rest
  let (second, rest) ← readFixed 2 rest
  if hour ≤ 23 && minute ≤ 59 && second ≤ 60 then some (dropFraction rest) else none

def readOffset : List Char → Option (List Char)
  | 'Z' :: rest => some rest
  | 'z' :: rest => some rest
  | '+' :: rest => distance rest
  | '-' :: rest => distance rest
  | text => some text
where
  distance (text : List Char) : Option (List Char) := do
    let (hour, rest) ← readFixed 2 text
    let rest ← expect ':' rest
    let (minute, rest) ← readFixed 2 rest
    if hour ≤ 23 && minute ≤ 59 then some rest else none

/-- Whether a date starts here: four digits and a dash. -/
def startsDate (text : List Char) : Bool :=
  match readFixed 4 text with
  | some (_, '-' :: _) => true
  | _ => false

/-- Whether a time starts here: two digits and a colon. -/
def startsTime (text : List Char) : Bool :=
  match readFixed 2 text with
  | some (_, ':' :: _) => true
  | _ => false

def readTimeBehind (text : List Char) : Option (List Char) :=
  match text with
  | c :: rest =>
    if (c = 'T' || c = 't' || c = ' ') && startsTime rest then (readTime rest).bind readOffset
    else some text
  | [] => some []

def readNumberOrMoment (text : List Char) : Option (Toml × List Char) :=
  if startsDate text then (((readDate text).bind readTimeBehind).map fun rest => (.moment, rest))
  else if startsTime text then ((readTime text).map fun rest => (.moment, rest))
  else readNumber text

end CodeOutline.Toml
