import CodeOutline.Json.Reader

/-! # Reading JSON directly into a shape

These readers know what they expect and take it from the text as they go, so the first fault
in the text decides.  A record is written as an object, or as the array of its fields in
their order.  Members with other keys are passed over; what they hold has to be JSON, but no
limit on nesting or on the size of numbers applies to it.
-/

namespace CodeOutline.Json.Reader

/-! ## Passing over values -/

/-- An array or object that is open while a value is passed over. -/
inductive Open where
  | array
  | object

def skipKey : Reader Unit := do
  match ← peek with
  | none => fail .endOfText
  | some c =>
    if c = '"' then
      advance
      lift fun text => (skipChars text).map ((), ·)
      colon
    else fail .malformed

def skipScalar (c : Char) : Reader Unit :=
  if c = 'n' then letters "null".toList
  else if c = 't' then letters "true".toList
  else if c = 'f' then letters "false".toList
  else if c = '-' then do
    advance
    lift fun text => (skipUnsigned text).map ((), ·)
  else if c.isDigit then lift fun text => (skipUnsigned text).map ((), ·)
  else if c = '"' then do
    advance
    lift fun text => (skipChars text).map ((), ·)
  else fail .malformed

def Open.closedBy : Open → Char → Bool
  | array, c => c == ']'
  | object, c => c == '}'

mutual

/-- Passes over a value inside what is open, the innermost first, and then over the rest of
    all that is open. -/
def skipValue : Nat → List Open → Reader Unit
  | 0, _ => fail .endOfText
  | rounds + 1, open? => do
    match ← peek with
    | none => fail .endOfText
    | some c =>
      if c = '[' then
        advance
        skipRest rounds true (.array :: open?)
      else if c = '\x7b' then
        advance
        skipRest rounds true (.object :: open?)
      else
        skipScalar c
        skipRest rounds false open?

/-- Passes over the rest of all that is open; `first` tells that the innermost is still
    empty. -/
def skipRest : Nat → Bool → List Open → Reader Unit
  | _, _, [] => return ()
  | 0, _, _ => fail .endOfText
  | rounds + 1, first, innermost :: outer => do
    match ← peek with
    | none => fail .endOfText
    | some c =>
      if innermost.closedBy c then
        advance
        skipRest rounds false outer
      else if first then skipItem rounds innermost outer
      else if c = ',' then
        advance
        skipItem rounds innermost outer
      else fail .malformed

/-- Passes over an element or a member, and then over the rest of all that is open. -/
def skipItem : Nat → Open → List Open → Reader Unit
  | 0, _, _ => fail .endOfText
  | rounds + 1, .array, outer => skipValue rounds (.array :: outer)
  | rounds + 1, .object, outer => do
    skipKey
    skipValue rounds (.object :: outer)

end

def anything : Reader Unit := do
  skipValue (4 * (← get).length + 4) []

/-! ## Expected values -/

/-- Fails on a value that is not the expected one: with its own fault if it is a scalar that
    cannot be read, and otherwise because of its shape. -/
def refuse {α : Type} (c : Char) : Reader α := do
  if c = '[' || c = '\x7b' then fail .mismatch
  else
    let _ ← scalar c
    fail .mismatch

def string : Reader String := do
  match ← peek with
  | none => fail .endOfText
  | some c =>
    if c = '"' then
      advance
      chars
    else refuse c

def word32 : Reader Nat := do
  match ← peek with
  | none => fail .endOfText
  | some c =>
    if c = '-' || c.isDigit then
      match ← lift readNumber with
      | .natural n => if n ≤ Word.max32 then return n else fail .mismatch
      | _ => fail .mismatch
    else refuse c

def nullable {α : Type} (reader : Reader α) : Reader (Option α) := do
  match ← peek with
  | some 'n' =>
    letters "null".toList
    return none
  | _ => return some (← reader)

def list {α : Type} (nesting : Nat) (item : Nat → Reader α) : Reader (List α) := do
  match ← peek with
  | none => fail .endOfText
  | some c =>
    if c = '[' then
      match nesting with
      | 0 => fail .malformed
      | n + 1 =>
        advance
        elements (item n)
    else refuse c

/-! ## Records -/

def field? {α : Type} (first : Bool) (reader : Reader α) : Reader (Option α) := do
  if ← moreElements first then return some (← reader) else return none

/-- Reads the next element of an array that holds the fields of a record, which has to be
    there. -/
def field {α : Type} (first : Bool) (reader : Reader α) : Reader α := do
  match ← field? first reader with
  | some a => return a
  | none => fail .mismatch

def once {α : Type} (before : Option α) (reader : Reader α) : Reader (Option α) :=
  match before with
  | some _ => fail .mismatch
  | none => do
    colon
    return some (← reader)

/-- Reads a record: `inOrder` reads its fields from an array, `member` reads the value for a
    key, and `finish` gives the record unless a field is missing.  They are given the
    remaining nesting. -/
def record {σ α : Type} (nesting : Nat) (inOrder : Nat → Reader α)
    (member : Nat → σ → String → Reader σ) (start : σ) (finish : σ → Option α) : Reader α := do
  match ← peek with
  | none => fail .endOfText
  | some c =>
    if c = '[' then
      match nesting with
      | 0 => fail .malformed
      | n + 1 =>
        advance
        let a ← inOrder n
        closeArray
        return a
    else if c = '\x7b' then
      match nesting with
      | 0 => fail .malformed
      | n + 1 =>
        advance
        let gathered ← members (member n) start
        match finish gathered with
        | some a => return a
        | none => fail .mismatch
    else refuse c

def otherMember {σ : Type} (gathered : σ) : Reader σ := do
  colon
  anything
  return gathered

end CodeOutline.Json.Reader
