import CodeOutline.SyntaxTree.Basic
import CodeOutline.Text.Basic

/-! # The name of a declaration

The name of a declaring node is a node below it.  It is looked for in this order: the
`name` field of the first node that has one along the chain of `declarator` fields, which
starts at the declaring node; the end of that chain, if it leads anywhere; for an
`impl_item`, its `type` field; the `name` field of the first node below that has one; and
the first node below that looks like an identifier.  The last two searches are in pre-order
and leave out bodies, which hold the names of other declarations.
-/

namespace CodeOutline.Node

def isInside (part : List Char) : List Char → Bool
  | [] => part.isEmpty
  | c :: rest => part.isPrefixOf (c :: rest) || isInside part rest

def isIdentifier (node : Node) : Bool :=
  "identifier".toList.isSuffixOf node.nodeType.toList
    || ["name", "variable_name", "constant"].contains node.nodeType

def isBody (node : Node) : Bool :=
  isInside "body".toList node.nodeType.toList || isInside "block".toList node.nodeType.toList
    || node.nodeType == "declaration_list"

/-! ## Searching below a node -/

mutual

/-- The first node below that satisfies `p`, leaving out bodies and unnamed nodes. -/
def firstBelow? (p : Node → Bool) : Node → Option Node
  | ⟨_, _, _, _, _, _, children⟩ => firstAmong? p children

def firstAmong? (p : Node → Bool) : List Node → Option Node
  | [] => none
  | node :: rest =>
    if !node.named || node.isBody then firstAmong? p rest
    else if p node then some node
    else (firstBelow? p node).or (firstAmong? p rest)

end

mutual

def searched : Node → List Node
  | ⟨_, _, _, _, _, _, children⟩ => searchedAmong children

def searchedAmong : List Node → List Node
  | [] => []
  | node :: rest =>
    if !node.named || node.isBody then searchedAmong rest
    else node :: (searched node ++ searchedAmong rest)

end

/-! ## The name node -/

/-- Follows the `declarator` fields from a node up to the first node with a `name` field and
    gives that field; without one, gives the end of the chain as the other alternative. -/
def declared (node : Node) : Node ⊕ Node :=
  match node.field? .name with
  | some name => .inl name
  | none =>
    match _h : node.field? .declarator with
    | some inner => declared inner
    | none => .inr node
termination_by sizeOf node
decreasing_by exact sizeOf_lt_of_field? _h

/-- The node below with the name of the declaration, for a node without the fields that
    lead to one. -/
def guessedName? (node : Node) : Option Node :=
  match (node.field? .type).filter fun _ => node.nodeType == "impl_item" with
  | some type => some type
  | none =>
    ((node.firstBelow? fun n => (n.field? .name).isSome).bind fun n => n.field? .name).or
      (node.firstBelow? isIdentifier)

def nameNode? (node : Node) : Option Node :=
  match node.field? .name, node.field? .declarator with
  | some name, _ => some name
  | none, some inner =>
    match declared inner with
    | .inl name => some name
    | .inr last => some last
  | none, none => node.guessedName?

/-- The first line of a node's text, without blanks around it.  A node whose bytes are no
    text has none. -/
def firstLine (text : List Char) (node : Node) : List Char :=
  match Text.span? text node.start node.stop with
  | some own => Text.trim (Text.firstLine own)
  | none => []

end CodeOutline.Node
