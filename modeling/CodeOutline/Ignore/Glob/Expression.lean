import CodeOutline.Ignore.Glob.Basic

/-! # Expressions for globs

What a glob stands for, as an expression over bytes in a simple form: texts that follow each
other are one text, sequences and choices are not nested directly, a choice of single bytes or of
classes is a class, and what all alternatives of a choice start with stands before it.
-/

namespace CodeOutline

abbrev Ranges := List (Nat × Nat)

namespace Ranges

/-- Joins the range from `low` to `high` with those that follow it and touch it. -/
def joinFrom (low high : Nat) : Ranges → Ranges
  | [] => [(low, high)]
  | (a, b) :: rest =>
    if a ≤ high + 1 then joinFrom low (max high b) rest else (low, high) :: joinFrom a b rest

def tidy (ranges : Ranges) : Ranges :=
  match ranges.mergeSort fun a b => a.1 ≤ b.1 with
  | [] => []
  | (low, high) :: rest => joinFrom low high rest

/-- The bytes from `next` on that are in none of the ranges, which are tidy. -/
def complementFrom (next : Nat) : Ranges → Ranges
  | [] => if next ≤ 255 then [(next, 255)] else []
  | (low, high) :: rest =>
    (if next < low then [(next, low - 1)] else []) ++ complementFrom (high + 1) rest

def all : Ranges := [(0, 255)]

def noSlash : Ranges := [(0, 46), (48, 255)]

end Ranges

/-- An expression that texts of bytes match. -/
inductive Expression where
  | literal (bytes : List UInt8)
  | oneOf (ranges : Ranges)
  | repeated (ranges : Ranges)
  | maybeSlash
  | sequence (parts : List Expression)
  | choice (parts : List Expression)

namespace Expression

/-! ## Equality -/

mutual

def same : Expression → Expression → Bool
  | literal a, literal b => a == b
  | oneOf a, oneOf b => a == b
  | repeated a, repeated b => a == b
  | maybeSlash, maybeSlash => true
  | sequence a, sequence b => sameAll a b
  | choice a, choice b => sameAll a b
  | _, _ => false

def sameAll : List Expression → List Expression → Bool
  | [], [] => true
  | a :: as, b :: bs => a.same b && sameAll as bs
  | _, _ => false

end

def commonFront : List Expression → List Expression → List Expression
  | a :: as, b :: bs => if a.same b then a :: commonFront as bs else []
  | _, _ => []

/-! ## Simple forms -/

def ofRanges (ranges : Ranges) : Expression :=
  match ranges.tidy with
  | [(low, high)] => if low = high then literal [UInt8.ofNat low] else oneOf [(low, high)]
  | tidied => oneOf tidied

def joinLiterals : List Expression → List Expression
  | [] => []
  | literal bytes :: rest =>
    match joinLiterals rest with
    | literal more :: rest => literal (bytes ++ more) :: rest
    | rest => literal bytes :: rest
  | part :: rest => part :: joinLiterals rest

def inSequence (parts : List Expression) : Expression :=
  let flat := parts.flatMap fun part =>
    match part with
    | sequence inner => inner
    | part => [part]
  match joinLiterals flat with
  | [part] => part
  | joined => sequence joined

def singleBytes? (parts : List Expression) : Option Ranges :=
  parts.mapM fun part =>
    match part with
    | literal [b] => if b < 128 then some (b.toNat, b.toNat) else none
    | _ => none

def classes? (parts : List Expression) : Option Ranges :=
  (parts.mapM fun part =>
    match part with
    | oneOf ranges => some ranges
    | _ => none).map List.flatten

def sequences? (parts : List Expression) : Option (List (List Expression)) :=
  parts.mapM fun part =>
    match part with
    | sequence inner => some inner
    | _ => none

def frontOfAll : List (List Expression) → List Expression
  | [] => []
  | first :: rest => rest.foldl commonFront first

/-- One of several expressions.  What they all start with is put before the choice, up to the
    given number of times. -/
def oneOfSeveral : Nat → List Expression → Expression
  | rounds, parts =>
    let flat := parts.flatMap fun part =>
      match part with
      | choice inner => inner
      | part => [part]
    match flat with
    | [part] => part
    | _ =>
      match (singleBytes? flat).or (classes? flat), sequences? flat, rounds with
      | some ranges, _, _ => ofRanges ranges
      | none, some lists, rounds + 1 =>
        let front := frontOfAll lists
        if front.isEmpty then choice flat
        else
          inSequence (front ++
            [oneOfSeveral rounds (lists.map fun list => inSequence (list.drop front.length))])
      | _, _, _ => choice flat

end Expression

/-! ## Globs -/

open Expression

def slashText : Expression := .literal [47]

mutual

def Token.expression : Token → Expression
  | .literal c => .literal (String.utf8EncodeChar c)
  | .any => .oneOf .noSlash
  | .star => .repeated .noSlash
  | .leading => .choice [.maybeSlash, .sequence [.repeated .all, slashText]]
  | .middle => .choice [slashText, .sequence [slashText, .repeated .all, slashText]]
  | .trailing => .sequence [slashText, .repeated .all]
  | .oneOf negated ranges =>
    let ranges : Ranges := (ranges.flatMap byteRanges).map fun (low, high) => (low.toNat, high.toNat)
    .ofRanges (if negated then ranges.tidy.complementFrom 0 else ranges)
  | .either branches =>
    match expressionsOfBranches branches with
    | [] => .sequence []
    | parts => oneOfSeveral (parts.length + branches.length) parts

def expressionsOfTokens : List Token → List Expression
  | [] => []
  | token :: rest => token.expression :: expressionsOfTokens rest

def expressionsOfBranches : List (List Token) → List Expression
  | [] => []
  | branch :: rest =>
    match inSequence (expressionsOfTokens branch) with
    | .sequence [] => expressionsOfBranches rest
    | part => part :: expressionsOfBranches rest

end

def Glob.expression (glob : Glob) : Expression :=
  match glob with
  | [.leading] => .repeated .all
  | tokens => inSequence (expressionsOfTokens tokens)

end CodeOutline
