import CodeOutline.Outline.Declaration
import CodeOutline.Symbol.Basic
import CodeOutline.Text.Basic

/-! # Outlines

An outline shows a forest of symbols with one line for each, in pre-order and indented by
one tab for each level of nesting.  The line has the visibility and, for functions and
methods, the return type that the declaration line shows, around the label of the kind
and the name.

Rendering fails as a whole, at the first symbol in pre-order that cannot be shown: its
line must exist and its kind must have a label, and the line is looked at first.
-/

namespace CodeOutline

inductive RenderError where
  /-- A symbol's line does not exist: its name, its line, and how many lines there are. -/
  | lineMissing (name : String) (line available : Nat)
  | labelMissing (name : String) (kind : Kind)
deriving DecidableEq, Repr

def RenderError.message : RenderError → String
  | lineMissing name line available =>
    "Symbol '" ++ name ++ "' starts at line " ++ toString line
      ++ ", but the source only has " ++ toString available ++ " lines"
  | labelMissing name kind =>
    "No label for symbol kind " ++ kind.display ++ " (symbol '" ++ name ++ "')"

namespace Outline

open Text (Source)

def lineText (depth : Nat) (declaration label name : String) (kind : Kind) : String :=
  let type :=
    if kind.isCallable then
      match Declaration.returnType? declaration with
      | some type => ": " ++ type
      | none => ""
    else ""
  String.ofList (List.replicate depth '\t') ++ Declaration.visibility declaration ++ label
    ++ " " ++ name ++ type ++ "\n"

def renderLine (source : Source) (depth : Nat) (name : String) (kind : Kind) (line : Nat) :
    Except RenderError String :=
  match source.line? line with
  | none => .error (.lineMissing name line source.size)
  | some declaration =>
    match kind.label? with
    | none => .error (.labelMissing name kind)
    | some label => .ok (lineText depth declaration label name kind)

mutual

def renderTree (source : Source) (depth : Nat) : Symbol → Except RenderError String
  | ⟨name, kind, line, children⟩ => do
    let first ← renderLine source depth name kind line
    let inner ← renderForest source (depth + 1) children
    return first ++ inner

def renderForest (source : Source) (depth : Nat) : List Symbol → Except RenderError String
  | [] => .ok ""
  | symbol :: rest => do
    let first ← renderTree source depth symbol
    let others ← renderForest source depth rest
    return first ++ others

end

def render (source : Source) (symbols : List Symbol) : Except RenderError String :=
  renderForest source 0 symbols

end Outline

end CodeOutline
