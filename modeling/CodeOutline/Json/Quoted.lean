import CodeOutline.Json.Basic

/-! # JSON strings

The characters between two quotes.  A quote, a backslash and the characters below the space
are written with a backslash; any other character stands for itself.  A character beyond
the first 65536 may be written as two halves of four digits each, and a half by itself
stands for nothing.
-/

namespace CodeOutline.Json

/-! ## Reading -/

def hexValue? (c : Char) : Option Nat :=
  if c.isDigit then some (c.toNat - '0'.toNat)
  else if 'a' ≤ c && c ≤ 'f' then some (c.toNat - 'a'.toNat + 10)
  else if 'A' ≤ c && c ≤ 'F' then some (c.toNat - 'A'.toNat + 10)
  else none

def hexValue4? (a b c d : Char) : Option Nat := do
  let a ← hexValue? a
  let b ← hexValue? b
  let c ← hexValue? c
  let d ← hexValue? d
  return ((a * 16 + b) * 16 + c) * 16 + d

/-- The fault of a text with fewer than four characters where four digits are due: too short
    if it has fewer than four bytes. -/
def shortDigits (text : List Char) : Fault :=
  if (String.ofList text).utf8ByteSize < 4 then .endOfText else .malformed

def unescape? : Char → Option Char
  | '"' => some '"'
  | '\\' => some '\\'
  | '/' => some '/'
  | 'b' => some '\x08'
  | 'f' => some '\x0c'
  | 'n' => some '\n'
  | 'r' => some '\r'
  | 't' => some '\t'
  | _ => none

/-- The first halves of characters written as two. -/
def isLeadHalf (n : Nat) : Bool :=
  0xD800 ≤ n && n ≤ 0xDBFF

def isTrailHalf (n : Nat) : Bool :=
  0xDC00 ≤ n && n ≤ 0xDFFF

def joinHalves (lead trail : Nat) : Char :=
  Char.ofNat (0x10000 + (lead - 0xD800) * 0x400 + (trail - 0xDC00))

def readChars : List Char → Except Fault (List Char × List Char)
  | [] => .error .endOfText
  | '"' :: rest => .ok ([], rest)
  | '\\' :: text =>
    match text with
    | [] => .error .endOfText
    | 'u' :: a :: b :: c :: d :: rest =>
      match hexValue4? a b c d with
      | none => .error .malformed
      | some n =>
        if isTrailHalf n then .error .malformed
        else if isLeadHalf n then
          match rest with
          | [] => .error .endOfText
          | ['\\'] => .error .endOfText
          | '\\' :: 'u' :: e :: f :: g :: h :: rest =>
            match hexValue4? e f g h with
            | none => .error .malformed
            | some m =>
              if isTrailHalf m then (readChars rest).map fun (cs, r) => (joinHalves n m :: cs, r)
              else .error .malformed
          | '\\' :: 'u' :: short => .error (shortDigits short)
          | _ => .error .malformed
        else (readChars rest).map fun (cs, r) => (Char.ofNat n :: cs, r)
    | 'u' :: short => .error (shortDigits short)
    | e :: rest =>
      match unescape? e with
      | none => .error .malformed
      | some c => (readChars rest).map fun (cs, r) => (c :: cs, r)
  | c :: rest =>
    if c < ' ' then .error .malformed
    else (readChars rest).map fun (cs, r) => (c :: cs, r)

/-- Passes over the characters up to the closing quote.  Half characters are not looked at. -/
def skipChars : List Char → Except Fault (List Char)
  | [] => .error .endOfText
  | '"' :: rest => .ok rest
  | '\\' :: text =>
    match text with
    | [] => .error .endOfText
    | 'u' :: a :: b :: c :: d :: rest =>
      if (hexValue4? a b c d).isNone then .error .malformed else skipChars rest
    | 'u' :: short => .error (shortDigits short)
    | e :: rest => if (unescape? e).isNone then .error .malformed else skipChars rest
  | c :: rest => if c < ' ' then .error .malformed else skipChars rest

/-! ## Writing -/

def hexDigit (n : Nat) : Char :=
  if n < 10 then Char.ofNat ('0'.toNat + n) else Char.ofNat ('a'.toNat + (n - 10))

def escape (c : Char) : List Char :=
  if c = '"' then ['\\', '"']
  else if c = '\\' then ['\\', '\\']
  else if c = '\x08' then ['\\', 'b']
  else if c = '\x0c' then ['\\', 'f']
  else if c = '\n' then ['\\', 'n']
  else if c = '\r' then ['\\', 'r']
  else if c = '\t' then ['\\', 't']
  else if c < ' ' then ['\\', 'u', '0', '0', hexDigit (c.toNat / 16), hexDigit (c.toNat % 16)]
  else [c]

def quoted (text : String) : String :=
  String.ofList ('"' :: (text.toList.flatMap escape ++ ['"']))

end CodeOutline.Json
