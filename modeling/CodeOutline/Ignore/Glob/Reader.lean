import CodeOutline.Ignore.Glob.Basic

/-! # Reading globs

A text is read from left to right, with the branches of every open brace kept in a draft.  Two
stars count as folders only between slashes, or at the edges of a branch; everywhere else they
are two single stars.  A bracket that is never closed stands for itself, and so do all brackets
behind it.
-/

namespace CodeOutline

namespace Glob

/-! ## Drafts -/

/-- What is known while a glob is read: the tokens of the current branch, last first, and for
    every open brace its finished branches, last first, with the tokens before it. -/
structure Draft where
  current : List Token := []
  outer : List (List (List Token) × List Token) := []

namespace Draft

def push (draft : Draft) (token : Token) : Draft :=
  { draft with current := token :: draft.current }

def openBrace (draft : Draft) : Draft :=
  ⟨[], ([], draft.current) :: draft.outer⟩

/-- Goes on to the next branch; outside of braces a comma stands for itself. -/
def comma (draft : Draft) : Draft :=
  match draft.outer with
  | [] => draft.push (.literal ',')
  | (done, before) :: rest => ⟨[], (draft.current.reverse :: done, before) :: rest⟩

def closeBrace (draft : Draft) : Option Draft :=
  match draft.outer with
  | [] => none
  | (done, before) :: rest =>
    some ⟨.either (draft.current.reverse :: done).reverse :: before, rest⟩

def inBraces (draft : Draft) : Bool :=
  !draft.outer.isEmpty

/-- Puts a token for any folders in the place of the slash before it.  Several of them in a row
    are as good as the first. -/
def folders (draft : Draft) (token : Token) : Draft :=
  match draft.current with
  | .leading :: _ => draft
  | .trailing :: _ => draft
  | _ :: before => { draft with current := token :: before }
  | [] => draft.push token

end Draft

/-! ## Classes -/

inductive Brackets where
  | closed (ranges : List (Char × Char)) (rest : List Char)
  | unclosed
  | backwards

/-- Reads the ranges of a class.  A bracket or a dash at the front stands for itself, and so
    does a dash at the end; `pending` tells that a dash waits for the end of a range. -/
def readRanges (first pending : Bool) (ranges : List (Char × Char)) : List Char → Brackets
  | [] => .unclosed
  | c :: rest =>
    if c = ']' && !first then
      .closed (if pending then ranges.reverse ++ [('-', '-')] else ranges.reverse) rest
    else if c = '-' && !first && !pending then readRanges false true ranges rest
    else
      match pending, ranges with
      | true, (low, _) :: before =>
        if c < low then .backwards else readRanges false false ((low, c) :: before) rest
      | _, _ => readRanges false false ((c, c) :: ranges) rest

def readClass (text : List Char) : Bool × Brackets :=
  match text with
  | '!' :: rest => (true, readRanges true false [] rest)
  | '^' :: rest => (true, readRanges true false [] rest)
  | _ => (false, readRanges true false [] text)

/-! ## Tokens -/

/-- Reads two stars: the draft with them, the last character taken, and the text behind it. -/
def readStars (draft : Draft) (before : Option Char) (text : List Char) :
    Draft × Char × List Char :=
  let plain := ((draft.push .star).push .star, '*', text)
  if draft.current.isEmpty then
    match text with
    | [] => (draft.push .leading, '*', [])
    | '/' :: rest => (draft.push .leading, '/', rest)
    | _ => plain
  else if before = some '/' || (draft.inBraces && (before = some ',' || before = some '\x7b')) then
    match text with
    | [] => (draft.folders .trailing, '*', [])
    | '/' :: rest => (draft.folders .middle, '/', rest)
    | c :: _ =>
      if draft.inBraces && (c = ',' || c = '}') then (draft.folders .trailing, '*', text)
      else plain
  else plain

/-- Reads a glob in at most the given number of rounds, each of which takes at least one
    character.  `before` is the character taken last, and `loose` tells that a bracket was
    never closed, so that brackets stand for themselves. -/
def readTokens : Nat → Bool → Draft → Option Char → List Char → Option Draft
  | _, _, draft, _, [] => some draft
  | 0, _, _, _, _ => none
  | rounds + 1, loose, draft, before, c :: rest =>
    if c = '?' then readTokens rounds loose (draft.push .any) (some c) rest
    else if c = '*' then
      match rest with
      | '*' :: rest =>
        let (draft, last, rest) := readStars draft before rest
        readTokens rounds loose draft (some last) rest
      | _ => readTokens rounds loose (draft.push .star) (some c) rest
    else if c = '[' && !loose then
      match readClass rest with
      | (negated, .closed ranges rest) =>
        readTokens rounds loose (draft.push (.oneOf negated ranges)) (some ']') rest
      | (_, .unclosed) => readTokens rounds true (draft.push (.literal '[')) (some '[') rest
      | (_, .backwards) => none
    else if c = '\x7b' then readTokens rounds loose draft.openBrace (some c) rest
    else if c = '}' then
      match draft.closeBrace with
      | none => none
      | some draft => readTokens rounds loose draft (some c) rest
    else if c = ',' then readTokens rounds loose draft.comma (some c) rest
    else if c = '\\' then
      match rest with
      | [] => none
      | e :: rest => readTokens rounds loose (draft.push (.literal e)) (some e) rest
    else readTokens rounds loose (draft.push (.literal c)) (some c) rest

def parse? (text : List Char) : Option Glob :=
  match readTokens text.length false {} none text with
  | some ⟨tokens, []⟩ => some tokens.reverse
  | _ => none

end Glob

end CodeOutline
