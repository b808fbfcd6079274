import CodeOutline.Symbol.Kind

/-! # Symbols

A symbol is a named declaration with the line its name stands on and the symbols declared
inside it.  The symbols of a file form a forest.

`preorder` lists a forest with the nesting depth of each symbol: a symbol comes before
its children, and these come before its next sibling.
-/

namespace CodeOutline

/-- A declaration, with its line counted from 0 and the declarations inside it. -/
structure Symbol where
  name : String
  kind : Kind
  line : Nat
  children : List Symbol := []
deriving Repr, Inhabited

namespace Symbol

mutual

def count : Symbol → Nat
  | ⟨_, _, _, children⟩ => 1 + countAll children

def countAll : List Symbol → Nat
  | [] => 0
  | symbol :: rest => count symbol + countAll rest

end

mutual

def preorderTree (depth : Nat) : Symbol → List (Nat × Symbol)
  | ⟨name, kind, line, children⟩ =>
    (depth, ⟨name, kind, line, children⟩) :: preorder (depth + 1) children

/-- The symbols of a forest with their depths, parents before children and these before
    the next sibling. -/
def preorder (depth : Nat) : List Symbol → List (Nat × Symbol)
  | [] => []
  | symbol :: rest => preorderTree depth symbol ++ preorder depth rest

end

end Symbol

end CodeOutline
