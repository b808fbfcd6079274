import CodeOutline.Ignore.Glob.Basic

/-! # Matching globs

Paths are matched as bytes.  While the tokens of a glob are taken one after the other, marks tell
for every place in the path whether the tokens so far can take the bytes before it.  There is one
place more than there are bytes, and a glob matches a path if its tokens lead from a mark on the
first place alone to a mark on the last.

Globs whose end is a plain text are decided by the name of the file that a path leads to, and a
path that ends with a step back up has no such name.
-/

namespace CodeOutline

def slash : UInt8 := 47

def dot : UInt8 := 46

/-- For every place in a path, whether the tokens so far can take the bytes before it. -/
abbrev Marks := List Bool

namespace Marks

def start (path : List UInt8) : Marks :=
  true :: path.map fun _ => false

def union (a b : Marks) : Marks :=
  List.zipWith (· || ·) a b

def step (p : UInt8 → Bool) (path : List UInt8) (marks : Marks) : Marks :=
  false :: List.zipWith (fun mark b => mark && p b) marks path

/-- The places behind any number of bytes of a class, `marked` telling whether the first place
    is one of them by what stands before it. -/
def spread (p : UInt8 → Bool) (marked : Bool) : List UInt8 → Marks → Marks
  | _, [] => []
  | [], mark :: _ => [mark || marked]
  | b :: path, mark :: marks => (mark || marked) :: spread p ((mark || marked) && p b) path marks

def skipFolders (path : List UInt8) (marks : Marks) : Marks :=
  union marks (step (· == slash) path (spread (fun _ => true) false path marks))

def takeBytes (path : List UInt8) (marks : Marks) (bytes : List UInt8) : Marks :=
  bytes.foldl (fun marks b => step (· == b) path marks) marks

end Marks

mutual

def Token.advance (path : List UInt8) : Token → Marks → Marks
  | .literal c, marks => marks.takeBytes path (String.utf8EncodeChar c)
  | .any, marks => Marks.step (· != slash) path marks
  | .star, marks => Marks.spread (· != slash) false path marks
  | .leading, marks => Marks.skipFolders path marks
  | .middle, marks => Marks.skipFolders path (Marks.step (· == slash) path marks)
  | .trailing, marks =>
    Marks.spread (fun _ => true) false path (Marks.step (· == slash) path marks)
  | .oneOf negated ranges, marks => Marks.step (inRanges ranges · != negated) path marks
  | .either branches, marks =>
    if areVoid branches then marks else advanceBranches path branches marks

def advanceTokens (path : List UInt8) : List Token → Marks → Marks
  | [], marks => marks
  | token :: rest, marks => advanceTokens path rest (token.advance path marks)

/-- The places behind any of several branches.  A branch that stands for nothing does not count
    beside others. -/
def advanceBranches (path : List UInt8) : List (List Token) → Marks → Marks
  | [], marks => marks.map fun _ => false
  | branch :: rest, marks =>
    if isVoidGlob branch then advanceBranches path rest marks
    else Marks.union (advanceTokens path branch marks) (advanceBranches path rest marks)

end

/-! ## Whole paths -/

/-- Whether a path ends with a step back up, and so does not lead to a name. -/
def endsWithParent (path : List UInt8) : Bool :=
  path.reverse.takeWhile (· != slash) == [dot, dot]

def Token.isLiteral : Token → Bool
  | .literal _ => true
  | _ => false

def Token.isSlash : Token → Bool
  | .literal '/' => true
  | _ => false

namespace Glob

def isEverything : Glob → Bool
  | [.leading] => true
  | _ => false

/-- Whether a glob is a plain text for whole paths, or for their ends from some folder on. -/
def isPlain : Glob → Bool
  | .leading :: rest => rest.all Token.isLiteral && rest.any Token.isSlash
  | tokens => tokens.all Token.isLiteral

/-- Whether a glob is decided by the name that a path leads to. -/
def needsName (glob : Glob) : Bool :=
  !glob.isPlain && (glob.getLast?.any Token.isLiteral)

def matchesPath (glob : Glob) (path : List UInt8) : Bool :=
  glob.isEverything ||
    (!(glob.needsName && endsWithParent path) &&
      (advanceTokens path glob (Marks.start path)).getLast? == some true)

end Glob

end CodeOutline
