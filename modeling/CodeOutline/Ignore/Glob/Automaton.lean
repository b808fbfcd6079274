import CodeOutline.Ignore.Glob.Expression
import CodeOutline.Ignore.Glob.Match

/-! # How large globs are

Globs that do not come down to a comparison of texts are matched by an automaton.  All globs of a
set share one, except that a glob which ends with an extension has its own, since only paths with
that extension are put to it.  There is a second automaton for every one that reads paths
backwards.  An automaton may take up a limited number of bytes.
-/

namespace CodeOutline

namespace Automaton

/-! ## What takes up bytes -/

/-- A state without what leads out of it. -/
def stateSize : Nat := 32

/-- A way out of a state for a range of bytes, if there may be several. -/
def transitionSize : Nat := 8

/-- A way out of a state that takes no byte, if there may be several. -/
def branchSize : Nat := 4

def maxSize : Nat := 10485760

def classSize (ranges : Nat) : Nat :=
  2 * stateSize + ranges * transitionSize

def repeatSize (ranges : Nat) : Nat :=
  stateSize + 2 * branchSize + classSize ranges

def choiceSize (alternatives : Nat) : Nat :=
  if alternatives ≤ 1 then 0 else 2 * stateSize + alternatives * branchSize

/-! ## Choices of texts

Texts are kept in a tree, so that what several of them start with is there only once.  A text
that ends at a node closes the ways out of the node that are there: later texts get new ones, so
that the order of the texts is kept. -/

/-- Splits texts at those that are empty.  Of the empty ones before all others only the first
    counts. -/
def splitAtEnds (closed : List (List (List UInt8))) (current : List (List UInt8)) :
    List (List UInt8) → List (List (List UInt8))
  | [] => (current.reverse :: closed).reverse
  | [] :: rest =>
    if current.isEmpty && !closed.isEmpty && closed.all List.isEmpty then
      splitAtEnds closed current rest
    else splitAtEnds (current.reverse :: closed) [] rest
  | text :: rest => splitAtEnds closed (text :: current) rest

def waysSize (bytes : Nat) : Nat :=
  if bytes = 0 then 0
  else if bytes = 1 then stateSize
  else stateSize + bytes * transitionSize

def treeSize : Nat → List (List UInt8) → Nat
  | 0, _ => 0
  | depth + 1, texts =>
    let groups := splitAtEnds [] [] texts
    let ways := (groups.filter (!·.isEmpty)).length + (groups.length - 1)
    let sizes := groups.map fun group =>
      let bytes := (group.filterMap List.head?).eraseDups
      let below := bytes.map fun b =>
        let rests := (group.filter (·.head? == some b)).map (List.drop 1)
        if rests.all List.isEmpty then 0 else treeSize depth rests
      below.foldl (· + ·) (waysSize bytes.length)
    sizes.foldl (· + ·) (if ways = 1 then 0 else stateSize + ways * branchSize)

def textsSize (texts : List (List UInt8)) : Nat :=
  stateSize + treeSize ((texts.map List.length).foldl max 0 + 1) texts

end Automaton

open Automaton

/-! ## Expressions -/

namespace Expression

def literals? (parts : List Expression) : Option (List (List UInt8)) :=
  parts.mapM fun part =>
    match part with
    | literal bytes => some bytes
    | _ => none

mutual

/-- The size of the part of an automaton that matches an expression, forwards or backwards. -/
def size (backwards : Bool) : Expression → Nat
  | literal bytes => bytes.length * stateSize
  | oneOf ranges => classSize ranges.length
  | repeated ranges => repeatSize ranges.length
  | maybeSlash => 3 * stateSize + 2 * branchSize
  | sequence parts => if parts.isEmpty then stateSize else sizeOfParts backwards parts
  | choice parts =>
    match literals? parts with
    | some texts => textsSize (if backwards then texts.map List.reverse else texts)
    | none => choiceSize parts.length + sizeOfParts backwards parts

def sizeOfParts (backwards : Bool) : List Expression → Nat
  | [] => 0
  | part :: rest => part.size backwards + sizeOfParts backwards rest

end

end Expression

/-! ## Sets of globs -/

namespace Glob

def isExtension (tokens : List Token) : Bool :=
  tokens.all fun token =>
    match token with
    | .literal c => c != '.' && c != '/'
    | _ => false

/-- Whether a glob comes down to a comparison of texts: it is plain, or asks for a name, for an
    extension or for what a path starts with. -/
def isDirect (glob : Glob) : Bool :=
  match glob with
  | [] => false
  | [.leading] => false
  | .leading :: .star :: .literal '.' :: rest => isExtension rest
  | .leading :: rest => rest.all Token.isLiteral
  | tokens =>
    tokens.dropLast.all Token.isLiteral &&
      (match tokens.getLast? with
        | some (.literal _) => true
        | some .trailing => true
        | _ => false)

def hasExtension (glob : Glob) : Bool :=
  match glob.reverse.dropWhile fun token => isExtension [token] with
  | .literal '.' :: _ => true
  | _ => false

/-- The size of the part of an automaton that matches a glob.  Both ends of a path and the glob
    itself have a state each, and forwards there are two more for where a match starts and ends. -/
def size (backwards : Bool) (glob : Glob) : Nat :=
  (if backwards then 3 else 5) * stateSize +
    (match glob.expression with
      | .sequence [] => 0
      | expression => expression.size backwards)

def sizeOfAll (backwards : Bool) (globs : List Glob) : Nat :=
  globs.foldl (fun total glob => total + glob.size backwards) (stateSize + choiceSize globs.length)

def fits (globs : List Glob) : Bool :=
  sizeOfAll false globs ≤ maxSize && sizeOfAll true globs ≤ maxSize

def areWithinSize (globs : List Glob) : Bool :=
  let (single, shared) := (globs.filter (!·.isDirect)).partition hasExtension
  (single.all fun glob => fits [glob]) && fits shared

end Glob

end CodeOutline
