import CodeOutline.Language.Rules
import CodeOutline.Symbol.Basic
import CodeOutline.SyntaxTree.Name
import CodeOutline.Text.Basic

/-! # The symbols of a syntax tree

The named nodes of a tree are visited in pre-order.  A node that declares something becomes
a symbol, and the symbols found below it become its children; any other node is passed
through, so what is found below it belongs to the nearest declaration around it.

The kind of a symbol is the one its node type stands for, with three exceptions: a function
directly inside a container is a method, a type specification of an interface is an
interface, and a method definition named `constructor` is a constructor.
-/

namespace CodeOutline

def anonymousName : String :=
  "<anonymous>"

def lineLimit : Nat :=
  Word.max32 + 1

namespace Node

/-- Whether a node specifies an interface type. -/
def specifiesInterface (node : Node) : Bool :=
  node.nodeType == "type_spec"
    && (node.field? .type).any fun type => type.nodeType == "interface_type"

def declaringRule? (language : Language) (node : Node) : Option NodeRule :=
  (language.rule? node.nodeType).filter fun rule =>
    !rule.needsBody || (node.field? .body).isSome

/-- The kind a declaration is reported with, given the kind its rule stands for, the kind of
    the declaration around it, and its name. -/
def reportedKind (node : Node) (ruleKind : Kind) (parent : Option Kind) (name : List Char) :
    Kind :=
  match ruleKind with
  | .function => if parent.any Kind.isContainer then .method else .function
  | .struct => if node.specifiesInterface then .interface else .struct
  | .method =>
    if node.nodeType == "method_definition" && name == "constructor".toList then .constructor
    else .method
  | kind => kind

/-- The name of a declaration and the row it stands on; both are those of the node itself
    when it has no name node. -/
def nameAndRow (text : List Char) (node : Node) : List Char × Nat :=
  match node.nameNode? with
  | some name => (name.firstLine text, name.row)
  | none => ([], node.row)

def symbol? (language : Language) (text : List Char) (parent : Option Kind) (node : Node) :
    Option Symbol :=
  (node.declaringRule? language).map fun rule =>
    let (name, row) := node.nameAndRow text
    { name := if name.isEmpty then anonymousName else String.ofList name
      kind := node.reportedKind rule.kind parent name
      line := row % lineLimit
      children := [] }

mutual

/-- The symbols of a node: one symbol if it declares something, and otherwise those below
    it. -/
def symbolsAt (language : Language) (text : List Char) (parent : Option Kind) :
    Node → List Symbol
  | ⟨nodeType, named, row, start, stop, fields, children⟩ =>
    if named then
      match symbol? language text parent ⟨nodeType, named, row, start, stop, fields, children⟩ with
      | some symbol =>
        [{ symbol with children := symbolsAmong language text (some symbol.kind) children }]
      | none => symbolsAmong language text parent children
    else []

def symbolsAmong (language : Language) (text : List Char) (parent : Option Kind) :
    List Node → List Symbol
  | [] => []
  | node :: rest => symbolsAt language text parent node ++ symbolsAmong language text parent rest

end

def symbols (language : Language) (text : String) (root : Node) : List Symbol :=
  symbolsAmong language text.toList none root.children

end Node

end CodeOutline
