import CodeOutline.Toml.Number
import CodeOutline.Toml.Quoted

/-! # Reading TOML

A document is a sequence of lines: entries, headers, comments and empty lines.  An entry belongs
to the table of the last header before it.  Arrays may span lines, tables in braces may not.

Values may be nested and keys may be dotted up to a limit.  Everything that is not a document
gives `none`; what is wrong with it is not told.
-/

namespace CodeOutline.Toml

/-! ## Blanks and comments -/

/-- The number of parts a key may have, and of arrays and tables that may be open at the same
    time. -/
def nestingLimit : Nat := 79

def dropGap (text : List Char) : List Char :=
  text.dropWhile isGap

def dropComment : List Char → List Char
  | '#' :: rest => rest.dropWhile isPlain
  | text => text

def dropLineEnd? (text : List Char) : Option (List Char) :=
  match dropComment (dropGap text) with
  | [] => some []
  | rest => dropNewline? rest

/-- The text behind blanks, line breaks and comments, in at most the given number of rounds.  A
    comment has to end with a line break. -/
def dropSpacing : Nat → List Char → Option (List Char)
  | 0, _ => none
  | rounds + 1, text =>
    match dropGap text with
    | '#' :: rest => (dropNewline? (rest.dropWhile isPlain)).bind (dropSpacing rounds)
    | rest =>
      match dropNewline? rest with
      | some rest => dropSpacing rounds rest
      | none => some rest

def dropSpaces (text : List Char) : Option (List Char) :=
  dropSpacing (text.length + 1) text

/-! ## Keys -/

def isKeyChar (c : Char) : Bool :=
  c.isAlphanum || c = '-' || c = '_'

def readKeyPart (text : List Char) : Option (String × List Char) :=
  match text with
  | [] => none
  | c :: _ =>
    if c = '"' || c = '\'' then readLineString text
    else if isKeyChar c then
      some (String.ofList (text.takeWhile isKeyChar), text.dropWhile isKeyChar)
    else none

def readKeyParts : Nat → List Char → Option (List String × List Char)
  | 0, _ => none
  | parts + 1, text => do
    let (part, rest) ← readKeyPart (dropGap text)
    match dropGap rest with
    | '.' :: rest =>
      let (others, rest) ← readKeyParts parts rest
      return (part :: others, rest)
    | rest => return ([part], rest)

def readKey (text : List Char) : Option (List String × String × List Char) := do
  let (parts, rest) ← readKeyParts nestingLimit text
  return (parts.dropLast, ← parts.getLast?, rest)

/-! ## Values -/

/-- Reads the elements of an array up to its closing bracket, in at most the given number of
    rounds. -/
def readElements (readItem : List Char → Option (Toml × List Char)) :
    Nat → List Char → Option (List Toml × List Char)
  | 0, _ => none
  | rounds + 1, text => do
    match ← dropSpaces text with
    | ']' :: rest => return ([], rest)
    | start =>
      let (item, rest) ← readItem start
      match ← dropSpaces rest with
      | ',' :: rest =>
        let (items, rest) ← readElements readItem rounds rest
        return (item :: items, rest)
      | ']' :: rest => return ([item], rest)
      | _ => none

/-- Reads the entries of a table in braces up to its closing brace, in at most the given number
    of rounds, and adds them to a table. -/
def readEntries (readItem : List Char → Option (Toml × List Char)) :
    Nat → Toml → List Char → Option (Toml × List Char)
  | 0, _, _ => none
  | rounds + 1, toml, text => do
    let (path, last, rest) ← readKey text
    let rest ← expect '=' rest
    let (value, rest) ← readItem (dropGap rest)
    let toml ← addKey path last value toml
    match dropGap rest with
    | ',' :: rest => readEntries readItem rounds toml rest
    | '}' :: rest => return (toml, rest)
    | _ => none

def readValue : Nat → List Char → Option (Toml × List Char)
  | depth, text =>
    match text with
    | [] => none
    | c :: rest =>
      if c = '"' || c = '\'' then (readString text).map fun (s, r) => (.string s, r)
      else if c = '[' then
        match depth with
        | 0 => none
        | n + 1 =>
          (readElements (readValue n) (rest.length + 1) rest).map fun (items, r) => (.array items, r)
      else if c = '\x7b' then
        match depth with
        | 0 => none
        | n + 1 =>
          match dropGap rest with
          | '}' :: rest => some (emptyTable .inline, rest)
          | rest => readEntries (readValue n) (rest.length + 1) (emptyTable .inline) rest
      else
        match text with
        | 't' :: 'r' :: 'u' :: 'e' :: rest => some (.bool true, rest)
        | 'f' :: 'a' :: 'l' :: 's' :: 'e' :: rest => some (.bool false, rest)
        | _ => readNumberOrMoment text

/-! ## Documents -/

/-- A document that is being read: all tables, and the keys of the last header. -/
structure Draft where
  root : Toml := emptyTable .header
  here : List String := []

def Draft.add (draft : Draft) (path : List String) (last : String) (value : Toml) :
    Option Draft := do
  let root ← changeAt .header (addKey path last value) draft.here draft.root
  return { draft with root }

/-- Begins the table of a header; `change` opens it in the table around it. -/
def Draft.enter (draft : Draft) (change : String → Toml → Option Toml) (path : List String)
    (last : String) : Option Draft := do
  let root ← changeAt .header (change last) path draft.root
  return ⟨root, path ++ [last]⟩

def readLine (draft : Draft) (text : List Char) : Option (Draft × List Char) :=
  match text with
  | '[' :: '[' :: rest => do
    let (path, last, rest) ← readKey rest
    let rest ← (expect ']' rest).bind (expect ']')
    return (← draft.enter openElement path last, ← dropLineEnd? rest)
  | '[' :: rest => do
    let (path, last, rest) ← readKey rest
    let rest ← expect ']' rest
    return (← draft.enter openTable path last, ← dropLineEnd? rest)
  | _ => do
    let (path, last, rest) ← readKey text
    let rest ← expect '=' rest
    let (value, rest) ← readValue nestingLimit (dropGap rest)
    return (← draft.add path last value, ← dropLineEnd? rest)

def readLines : Nat → Draft → List Char → Option Draft
  | 0, _, _ => none
  | rounds + 1, draft, text =>
    match dropGap text with
    | [] => some draft
    | '#' :: rest => (dropLineEnd? ('#' :: rest)).bind (readLines rounds draft)
    | rest =>
      match dropNewline? rest with
      | some rest => readLines rounds draft rest
      | none => (readLine draft rest).bind fun (draft, rest) => readLines rounds draft rest

/-- The document a text holds.  A byte order mark at its start does not count. -/
def parse? (text : String) : Option Toml :=
  let body :=
    match text.toList with
    | '\ufeff' :: rest => rest
    | text => text
  (readLines (body.length + 1) {} body).map Draft.root

end CodeOutline.Toml
