/-! # Syntax trees

The tree a grammar finds in a text.  A node has the type the grammar gives it, the row and
the bytes it stands at, and its children; some of these also go by the name of a field.  A
field may be found more than one level below its node, so it is given by the way to it: the
index of a child, then of a child of that, and so on.  A way has at least one step, so a
field always lies strictly below its node.
-/

namespace CodeOutline

inductive FieldName where
  | name
  | declarator
  | type
  | body
deriving DecidableEq, Repr

/-- A node of a syntax tree.  Nodes that are not named stand for punctuation and keywords. -/
structure Node where
  nodeType : String
  named : Bool
  row : Nat
  start : Nat
  stop : Nat
  fields : List (FieldName × List Nat)
  children : List Node
deriving Repr, Inhabited

namespace Node

/-- The node a way of child indices leads to; the empty way leads nowhere. -/
def follow? (node : Node) : List Nat → Option Node
  | [] => none
  | [i] => node.children[i]?
  | i :: way => (node.children[i]?).bind fun child => child.follow? way

def field? (node : Node) (field : FieldName) : Option Node :=
  (node.fields.lookup field).bind node.follow?

theorem sizeOf_lt_of_mem_children {node child : Node} (h : child ∈ node.children) :
    sizeOf child < sizeOf node := by
  have := List.sizeOf_lt_of_mem h
  cases node
  simp only [Node.mk.sizeOf_spec] at *
  omega

theorem sizeOf_lt_of_follow? {node target : Node} {way : List Nat}
    (h : node.follow? way = some target) : sizeOf target < sizeOf node := by
  induction way generalizing node with
  | nil => simp [follow?] at h
  | cons i way ih =>
    cases way with
    | nil => exact sizeOf_lt_of_mem_children (List.mem_of_getElem? h)
    | cons j way =>
      simp only [follow?, Option.bind_eq_some_iff] at h
      obtain ⟨child, hchild, hrest⟩ := h
      exact Nat.lt_trans (ih hrest) (sizeOf_lt_of_mem_children (List.mem_of_getElem? hchild))

theorem sizeOf_lt_of_field? {node target : Node} {field : FieldName}
    (h : node.field? field = some target) : sizeOf target < sizeOf node := by
  simp only [field?, Option.bind_eq_some_iff] at h
  obtain ⟨way, _, hway⟩ := h
  exact sizeOf_lt_of_follow? hway

end Node

end CodeOutline
