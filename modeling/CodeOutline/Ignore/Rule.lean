import CodeOutline.Disk.Basic
import CodeOutline.Ignore.Glob.Automaton
import CodeOutline.Ignore.Glob.Nesting
import CodeOutline.Ignore.Glob.Reader
import CodeOutline.Text.Basic

/-! # Ignore rules

A line of an ignore file is a rule: a glob for the paths that are ignored, or kept after all if
the line starts with an exclamation mark.  A glob without a slash inside matches in any folder,
one with a slash only from the folder of the ignore file on.  A slash at the end restricts the
rule to folders.

The last rule that applies to a path decides.  The rules of a file are put to use together: if
one of their globs is nested too deeply, or if they are too large, none of them has an effect.
-/

namespace CodeOutline

inductive Verdict where
  | ignore
  | keep
deriving DecidableEq, Repr

structure Rule where
  glob : Glob
  verdict : Verdict
  foldersOnly : Bool

namespace Rule

/-! ## Lines -/

/-- The line without blanks at its end, unless the last one is escaped. -/
def trimLine (line : List Char) : List Char :=
  match line.reverse with
  | ' ' :: '\\' :: _ => line
  | reversed => (reversed.dropWhile Text.isBlank).reverse

def startsWithFolders : List Char → Bool
  | '*' :: '*' :: '/' :: _ => true
  | ['*', '*'] => true
  | _ => false

def endsWithFolders (text : List Char) : Bool :=
  match text.reverse with
  | '*' :: '*' :: '/' :: _ => true
  | _ => false

/-- The glob of a rule from the text of its line: it matches in any folder unless it is
    `anchored` or has a slash, and two stars at the end stand for what is in a folder, but not
    for the folder. -/
def globText (anchored : Bool) (text : List Char) : List Char :=
  let anywhere :=
    if !anchored && !text.contains '/' && !startsWithFolders text then '*' :: '*' :: '/' :: text
    else text
  if endsWithFolders anywhere then anywhere ++ ['/', '*'] else anywhere

def dropLastSlash (text : List Char) : Bool × List Char :=
  match text.reverse with
  | '/' :: '\\' :: rest => (true, rest.reverse)
  | '/' :: rest => (true, rest.reverse)
  | _ => (false, text)

def readMarks (line : List Char) : Verdict × Bool × List Char :=
  let anchor := fun text : List Char =>
    match text with
    | '/' :: rest => (true, rest)
    | _ => (false, text)
  match line with
  | '\\' :: '!' :: rest => (.ignore, false, '!' :: rest)
  | '\\' :: '#' :: rest => (.ignore, false, '#' :: rest)
  | '!' :: rest => (.keep, anchor rest)
  | _ => (.ignore, anchor line)

/-- The rule of a line.  Comments, empty lines and globs that cannot be read give none. -/
def ofLine? (line : String) : Option Rule :=
  let text := line.toList
  if text.head? = some '#' then none
  else
    let text := trimLine text
    if text.isEmpty then none
    else
      let (verdict, anchored, text) := readMarks text
      let (foldersOnly, text) := dropLastSlash text
      (Glob.parse? (globText anchored text)).map fun glob => ⟨glob, verdict, foldersOnly⟩

def areUsable (globs : List Glob) : Bool :=
  (globs.all fun glob => glob.depth ≤ Glob.maxDepth) && Glob.areWithinSize globs

/-- The rules of several lines, none of them if their globs cannot be put to use together. -/
def ofLines (lines : List String) : List Rule :=
  let rules := lines.filterMap ofLine?
  if areUsable (rules.map Rule.glob) then rules else []

/-! ## Files -/

/-- The lines of a file as bytes, without their ends.  A return before the end of a line belongs
    to the end. -/
def byteLines (line : List UInt8) : List UInt8 → List (List UInt8)
  | [] => if line.isEmpty then [] else [line.reverse]
  | b :: rest =>
    if b = 10 then
      (match line with
        | 13 :: line => line.reverse
        | _ => line.reverse) :: byteLines [] rest
    else byteLines (b :: line) rest

def textLines : List (List UInt8) → List String
  | [] => []
  | line :: rest =>
    match String.fromUTF8? (ByteArray.mk line.toArray) with
    | none => []
    | some text => text :: textLines rest

def firstLine? (content : ByteArray) : Option String :=
  (textLines ((byteLines [] content.toList).take 1)).head?

/-- The lines without byte order marks at the start of the first. -/
def dropMarks : List String → List String
  | [] => []
  | line :: rest => String.ofList (line.toList.dropWhile (· = '\ufeff')) :: rest

def ofContent (content : ByteArray) : List Rule :=
  ofLines (dropMarks (textLines (byteLines [] content.toList)))

def ofPlace (disk : Disk) (place : Place) : List Rule :=
  match disk.item? place with
  | some (.file content) => ofContent content
  | _ => []

/-! ## Verdicts -/

def applies (rule : Rule) (path : List UInt8) (isFolder : Bool) : Bool :=
  (!rule.foldersOnly || isFolder) && rule.glob.matchesPath path

def verdict? (rules : List Rule) (path : String) (isFolder : Bool) : Option Verdict :=
  let bytes := path.toUTF8.toList
  (rules.reverse.find? fun rule => rule.applies bytes isFolder).map Rule.verdict

end Rule

end CodeOutline
