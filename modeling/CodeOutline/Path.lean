import CodeOutline.Text.Basic

/-! # Paths

A path is a text whose pieces are divided by slashes.  What it leads to depends only on its
components: a slash at the front is the root, a piece `..` is the parent, and every other
piece is a name, while empty pieces and pieces `.` are skipped.  Only a `.` at the very
front of a relative path is a component of its own.

Cutting a base off a path compares components, and what is left is the remaining part of
the text as it was written, without skipped pieces at its two ends.
-/

namespace CodeOutline.Path

open Text (splitOnChar)

inductive Component where
  | root
  | here
  | parent
  | name (text : String)
deriving DecidableEq, Repr

/-! ## Pieces and components -/

def pieceComponent? (piece : List Char) : Option Component :=
  if piece = [] ∨ piece = ['.'] then none
  else if piece = ['.', '.'] then some .parent
  else some (.name (String.ofList piece))

/-- The component at the very front of a path that is not written as a piece of its body:
    the root, or the place the path starts from. -/
def front? : List Char → Option Component
  | '/' :: _ => some .root
  | ['.'] => some .here
  | '.' :: '/' :: _ => some .here
  | _ => none

def pieces (path : List Char) : List (List Char) :=
  splitOnChar '/' (if (front? path).isSome then path.drop 1 else path)

def components (path : String) : List Component :=
  (front? path.toList).toList ++ (pieces path.toList).filterMap pieceComponent?

def isAbsolute (path : String) : Bool :=
  path.toList.head? == some '/'

/-- A text that stands for a name wherever it is a piece of a path. -/
def IsName (name : String) : Prop :=
  pieceComponent? name.toList = some (.name name) ∧ '/' ∉ name.toList

instance (name : String) : Decidable (IsName name) :=
  inferInstanceAs (Decidable (_ ∧ _))

/-! ## Writing paths -/

def Component.text : Component → String
  | root => "/"
  | here => "."
  | parent => ".."
  | name text => text

def joinSlash : List (List Char) → List Char
  | [] => []
  | [piece] => piece
  | piece :: rest => piece ++ '/' :: joinSlash rest

/-- The path `path` as seen from `base`: itself if it is absolute, and otherwise behind
    `base` with a slash between them unless one is there. -/
def join (base path : String) : String :=
  if isAbsolute path then path
  else if base.isEmpty || base.toList.getLast? == some '/' then base ++ path
  else base ++ "/" ++ path

/-! ## Cutting off a base -/

def isSkipped (piece : List Char) : Bool :=
  (pieceComponent? piece).isNone

def trimBack (ps : List (List Char)) : List (List Char) :=
  (ps.reverse.dropWhile isSkipped).reverse

/-- The pieces behind the ones that stand for the given components, if they do. -/
def dropComponents : List Component → List (List Char) → Option (List (List Char))
  | [], ps => some ps
  | c :: cs, ps =>
    match ps.dropWhile isSkipped with
    | [] => none
    | p :: rest => if pieceComponent? p = some c then dropComponents cs rest else none

/-- What is left of `path` behind `base`, if the components of `base` are the first ones of
    `path`. -/
def stripBase? (base path : String) : Option String :=
  let text := path.toList
  let tidy := fun ps : List (List Char) => String.ofList (joinSlash (trimBack (ps.dropWhile isSkipped)))
  match components base, front? text with
  | [], none => some (String.ofList (joinSlash (trimBack (pieces text))))
  | [], some _ => some (String.ofList (text.take 1 ++ joinSlash (trimBack (pieces text))))
  | c :: cs, some front => if front = c then (dropComponents cs (pieces text)).map tidy else none
  | cs, none => (dropComponents cs (pieces text)).map tidy

/-- The components of `path` behind `root`, written with single slashes; a path outside of
    `root` as it is. -/
def relativeTo (root path : String) : String :=
  match stripBase? root path with
  | none => path
  | some rest => "/".intercalate ((components rest).map Component.text)

/-- The part of `path` behind `root` as it was written; a path outside of `root` as it is. -/
def shownFrom (root path : String) : String :=
  (stripBase? root path).getD path

/-! ## Folders above a path -/

def parent? (path : String) : Option String :=
  let text := path.toList
  let front := if (front? text).isSome then text.take 1 else []
  match (trimBack (pieces text)).reverse with
  | [] => if front? text = some .here then some "" else none
  | _ :: before => some (String.ofList (front ++ joinSlash (trimBack before.reverse)))

def ancestorsUpTo : Nat → String → List String
  | 0, _ => []
  | n + 1, path =>
    match parent? path with
    | none => []
    | some above => above :: ancestorsUpTo n above

def ancestors (path : String) : List String :=
  ancestorsUpTo (path.length + 1) path

/-! ## File names -/

def fileName? (path : String) : Option String :=
  match (components path).getLast? with
  | some (.name text) => some text
  | _ => none

/-- The part of a file name behind its last dot.  A dot at the very front does not count. -/
def extensionOf? (name : String) : Option String :=
  match (splitOnChar '.' name.toList).reverse with
  | [] => none
  | [_] => none
  | last :: before =>
    if before = [[]] then none else some (String.ofList last)

def extension? (path : String) : Option String :=
  (fileName? path).bind extensionOf?

/-! ## Order -/

def Component.rank : Component → Nat
  | root => 0
  | here => 1
  | parent => 2
  | name _ => 3

def Component.compare (a b : Component) : Ordering :=
  match a, b with
  | name s, name t => Ord.compare s t
  | a, b => Ord.compare a.rank b.rank

/-- Paths are ordered by their components, the first difference deciding. -/
def compareComponents : List Component → List Component → Ordering
  | [], [] => .eq
  | [], _ :: _ => .lt
  | _ :: _, [] => .gt
  | a :: as, b :: bs => (a.compare b).then (compareComponents as bs)

def le (a b : String) : Bool :=
  compareComponents (components a) (components b) != .gt

end CodeOutline.Path
