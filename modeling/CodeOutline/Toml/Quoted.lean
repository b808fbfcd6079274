/-! # TOML strings

Strings in double quotes have escapes, strings in single quotes have none.  Between three
quotes a string may span lines; a line break right behind the opening quotes does not count, and
up to two quotes may stand before the closing ones.
-/

namespace CodeOutline.Toml

/-! ## Characters -/

/-- Characters that may stand in strings and comments: the tab, and all that are no control
    characters. -/
def isPlain (c : Char) : Bool :=
  c = '\t' || (' ' ≤ c && c ≠ '\x7f')

def hexDigit? (c : Char) : Option Nat :=
  if c.isDigit then some (c.toNat - '0'.toNat)
  else if 'a' ≤ c && c ≤ 'f' then some (c.toNat - 'a'.toNat + 10)
  else if 'A' ≤ c && c ≤ 'F' then some (c.toNat - 'A'.toNat + 10)
  else none

def hexChar? (digits : List Char) : Option Char := do
  let values ← digits.mapM hexDigit?
  let number := values.foldl (fun n d => n * 16 + d) 0
  if number.isValidChar then some (Char.ofNat number) else none

def readEscape : List Char → Option (Char × List Char)
  | 'b' :: rest => some ('\x08', rest)
  | 't' :: rest => some ('\t', rest)
  | 'n' :: rest => some ('\n', rest)
  | 'f' :: rest => some ('\x0c', rest)
  | 'r' :: rest => some ('\r', rest)
  | '"' :: rest => some ('"', rest)
  | '\\' :: rest => some ('\\', rest)
  | 'u' :: rest =>
    if (rest.take 4).length = 4 then (hexChar? (rest.take 4)).map (·, rest.drop 4) else none
  | 'U' :: rest =>
    if (rest.take 8).length = 8 then (hexChar? (rest.take 8)).map (·, rest.drop 8) else none
  | _ => none

def dropNewline? : List Char → Option (List Char)
  | '\n' :: rest => some rest
  | '\r' :: '\n' :: rest => some rest
  | _ => none

def dropBlankLines : List Char → List Char
  | ' ' :: rest => dropBlankLines rest
  | '\t' :: rest => dropBlankLines rest
  | '\n' :: rest => dropBlankLines rest
  | '\r' :: '\n' :: rest => dropBlankLines rest
  | text => text

def isGap (c : Char) : Bool :=
  c = ' ' || c = '\t'

/-! ## Strings on one line -/

def readBasic : Nat → List Char → Option (List Char × List Char)
  | 0, _ => none
  | rounds + 1, text =>
    match text with
    | [] => none
    | '"' :: rest => some ([], rest)
    | '\\' :: rest => do
      let (c, rest) ← readEscape rest
      let (cs, rest) ← readBasic rounds rest
      return (c :: cs, rest)
    | c :: rest =>
      if isPlain c then (readBasic rounds rest).map fun (cs, rest) => (c :: cs, rest) else none

def readLiteral : List Char → Option (List Char × List Char)
  | [] => none
  | '\'' :: rest => some ([], rest)
  | c :: rest =>
    if isPlain c then (readLiteral rest).map fun (cs, rest) => (c :: cs, rest) else none

/-! ## Strings over several lines -/

/-- The quotes of a string that stand right before its closing ones, and the text behind. -/
def lastQuotes (quote : Char) : List Char → List Char × List Char
  | a :: b :: rest =>
    if a = quote then (if b = quote then ([a, b], rest) else ([a], b :: rest))
    else ([], a :: b :: rest)
  | [a] => if a = quote then ([a], []) else ([], [a])
  | [] => ([], [])

/-- Reads the characters up to three closing quotes, in at most the given number of rounds.  A
    backslash at the end of a line takes off the line break and all blanks behind it. -/
def readBlock (quote : Char) (escapes : Bool) : Nat → List Char → Option (List Char × List Char)
  | 0, _ => none
  | rounds + 1, text =>
    match text with
    | [] => none
    | c :: rest =>
      if c = quote && rest.take 2 = [quote, quote] then some (lastQuotes quote (rest.drop 2))
      else if c = '\\' && escapes then
        match dropNewline? (rest.dropWhile isGap) with
        | some rest => readBlock quote escapes rounds (dropBlankLines rest)
        | none => do
          let (c, rest) ← readEscape rest
          let (cs, rest) ← readBlock quote escapes rounds rest
          return (c :: cs, rest)
      else
        match dropNewline? (c :: rest) with
        | some rest => (readBlock quote escapes rounds rest).map fun (cs, r) => ('\n' :: cs, r)
        | none =>
          if isPlain c then (readBlock quote escapes rounds rest).map fun (cs, r) => (c :: cs, r)
          else none

/-! ## Any string -/

def readLineString : List Char → Option (String × List Char)
  | '"' :: rest => (readBasic (rest.length + 1) rest).map fun (cs, r) => (String.ofList cs, r)
  | '\'' :: rest => (readLiteral rest).map fun (cs, r) => (String.ofList cs, r)
  | _ => none

def readString (text : List Char) : Option (String × List Char) :=
  match text with
  | '"' :: '"' :: '"' :: rest => block '"' true rest
  | '\'' :: '\'' :: '\'' :: rest => block '\'' false rest
  | _ => readLineString text
where
  block (quote : Char) (escapes : Bool) (rest : List Char) : Option (String × List Char) :=
    let body := (dropNewline? rest).getD rest
    (readBlock quote escapes (body.length + 1) body).map fun (cs, r) => (String.ofList cs, r)

end CodeOutline.Toml
