import CodeOutline.Json.Number
import CodeOutline.Json.Quoted

/-! # Reading JSON

The pieces every reader of JSON is made of, and the reader for whole documents.  Nesting is
limited: `value n` reads a value in which up to `n` arrays and objects may be open at the
same time, so that it is a recursion on `n`.

Lists of elements and members are read by loops that have a round for every character of the
text, since every round takes at least one.
-/

namespace CodeOutline.Json

/-! ## Blanks, words and single characters -/

def isJsonBlank (c : Char) : Bool :=
  c == ' ' || c == '\n' || c == '\t' || c == '\r'

namespace Reader

def fail {α : Type} (fault : Fault) : Reader α :=
  fun _ => .error fault

/-- Passes over blanks and looks at the next character without taking it. -/
def peek : Reader (Option Char) :=
  fun text => let rest := text.dropWhile isJsonBlank; .ok (rest.head?, rest)

def advance : Reader Unit :=
  fun text => .ok ((), text.drop 1)

def lift {α : Type} (f : List Char → Except Fault (α × List Char)) : Reader α :=
  f

def letters : List Char → Reader Unit
  | [] => fun text => .ok ((), text)
  | c :: cs => fun text =>
    match text with
    | [] => .error .endOfText
    | d :: rest => if c = d then letters cs rest else .error .malformed

/-- Takes a word whose first character has been seen, and gives the value it stands for. -/
def word (w : String) (value : Json) : Reader Json := do
  letters w.toList
  return value

def chars : Reader String := do
  let cs ← lift readChars
  return String.ofList cs

/-! ## Scalars -/

def scalar (c : Char) : Reader Json :=
  if c = 'n' then word "null" .null
  else if c = 't' then word "true" (.bool true)
  else if c = 'f' then word "false" (.bool false)
  else if c = '-' || c.isDigit then lift readNumber
  else if c = '"' then do
    advance
    return .string (← chars)
  else fail .malformed

/-! ## Elements and members -/

/-- Whether another element follows in an array; `first` tells that none was read yet.  The
    comma before the element is taken. -/
def moreElements (first : Bool) : Reader Bool := do
  match ← peek with
  | none => fail .endOfText
  | some c =>
    if c = ']' then return false
    else if first then return true
    else if c = ',' then
      advance
      match ← peek with
      | none => fail .endOfText
      | some d => if d = ']' then fail .malformed else return true
    else fail .malformed

/-- Whether another member follows in an object, whose key then starts at the quote that
    comes next. -/
def moreMembers (first : Bool) : Reader Bool := do
  match ← peek with
  | none => fail .endOfText
  | some c =>
    if c = '}' then return false
    else if first then
      if c = '"' then return true else fail .malformed
    else if c = ',' then
      advance
      match ← peek with
      | none => fail .endOfText
      | some d => if d = '"' then return true else fail .malformed
    else fail .malformed

def closeArray : Reader Unit := do
  match ← peek with
  | none => fail .endOfText
  | some c => if c = ']' then advance else fail .malformed

def key : Reader String := do
  advance
  chars

def colon : Reader Unit := do
  match ← peek with
  | none => fail .endOfText
  | some c => if c = ':' then advance else fail .malformed

/-- Reads the elements of an array up to its closing bracket, in a round for each character of
    `rounds` at most. -/
def elementsIn {α : Type} (item : Reader α) : List Char → Bool → Reader (List α)
  | [], _ => fail .endOfText
  | _ :: rounds, first => do
    if ← moreElements first then
      let x ← item
      let xs ← elementsIn item rounds false
      return x :: xs
    else return []

def elements {α : Type} (item : Reader α) : Reader (List α) := do
  let xs ← elementsIn item ('[' :: (← get)) true
  closeArray
  return xs

/-- Reads the members of an object up to its closing brace, in a round for each character of
    `rounds` at most.  The reader `member` gets the key and what was gathered so far, and reads on
    from behind the key. -/
def membersIn {σ : Type} (member : σ → String → Reader σ) : List Char → Bool → σ → Reader σ
  | [], _, _ => fail .endOfText
  | _ :: rounds, first, gathered => do
    if ← moreMembers first then
      let k ← key
      membersIn member rounds false (← member gathered k)
    else return gathered

def members {σ : Type} (member : σ → String → Reader σ) (start : σ) : Reader σ := do
  let gathered ← membersIn member ('\x7b' :: (← get)) true start
  advance
  return gathered

/-! ## Documents -/

/-- Reads a value in which up to the given number of arrays and objects may be open. -/
def value : Nat → Reader Json
  | 0 => do
    match ← peek with
    | none => fail .endOfText
    | some c => if c = '[' || c = '\x7b' then fail .malformed else scalar c
  | n + 1 => do
    match ← peek with
    | none => fail .endOfText
    | some c =>
      if c = '[' then
        advance
        return .array (← elements (value n))
      else if c = '\x7b' then
        advance
        let ms ← members (fun gathered k => do colon; return (k, ← value n) :: gathered) []
        return .object ms.reverse
      else scalar c

def atEnd : Reader Unit := do
  match ← peek with
  | none => return ()
  | some _ => fail .malformed

def onText {α : Type} (reader : Reader α) (text : String) : Except Fault α :=
  match (do let a ← reader; atEnd; return a : Reader α) text.toList with
  | .ok (a, _) => .ok a
  | .error fault => .error fault

end Reader

end CodeOutline.Json
