import CodeOutline.Ignore.Glob.Basic

/-! # How deeply globs are nested

A glob is matched by an expression built from sequences, choices, groups, repetitions and
classes, and such an expression may be nested up to a limit.  The depth of a glob is that of its
expression.  A sequence or a choice of a single part is as deep as that part.
-/

namespace CodeOutline

def Token.width : Token → Nat
  | .literal c => (String.utf8EncodeChar c).length
  | .trailing => 2
  | .either branches => if areVoid branches then 0 else 1
  | _ => 1

def Glob.width : Glob → Nat
  | [] => 0
  | token :: rest => token.width + Glob.width rest

def severalLevel (parts : Nat) : Nat :=
  if parts ≤ 1 then 0 else 1

mutual

/-- The levels that a token adds below the sequence it stands in. -/
def Token.depth : Token → Nat
  | .literal _ => 0
  | .any => 1
  | .star => 2
  | .leading => 4
  | .middle => 4
  | .trailing => 1
  | .oneOf _ ranges => 1 + severalLevel (ranges.flatMap byteRanges).length
  | .either branches =>
    if areVoid branches then 0
    else 1 + severalLevel (branches.filter (!isVoidGlob ·)).length + depthOfBranches branches

def depthOfTokens : List Token → Nat
  | [] => 0
  | token :: rest => max token.depth (depthOfTokens rest)

def depthOfBranches : List (List Token) → Nat
  | [] => 0
  | branch :: rest =>
    max (severalLevel (Glob.width branch) + depthOfTokens branch) (depthOfBranches rest)

end

def Glob.depth (glob : Glob) : Nat :=
  1 + depthOfTokens glob

def Glob.maxDepth : Nat := 250

end CodeOutline
