import CodeOutline.Proofs.Outline.Reading
import CodeOutline.Proofs.SyntaxTree.NameNode
import CodeOutline.Proofs.SyntaxTree.Walk
import CodeOutline.Provider

/-! # Symbols of a tree can be shown

A symbol is read from the node that declares it and from its name node, which stands below that one.
Whatever way the name node is found, the name is on one line, the kind has a label and the line is the
row of a node (`shown_of_symbol?`).

A grammar counts rows: the row of a node is the number of line feeds before it.  In such a tree no
row lies behind the last line of the text, so all symbols can be shown, and their outline has a line
for each of them (`exists_render_symbols`).
-/

namespace CodeOutline

namespace Node

/-! ## The nodes of a tree -/

mutual

/-- A node and all nodes below it. -/
def nodes : Node → List Node
  | ⟨nodeType, named, row, start, stop, fields, children⟩ =>
    ⟨nodeType, named, row, start, stop, fields, children⟩ :: nodesAmong children

/-- The nodes of a list and all nodes below them. -/
def nodesAmong : List Node → List Node
  | [] => []
  | node :: rest => nodes node ++ nodesAmong rest

end

/-- The row of every node is the number of line feeds before it. -/
def RowsCounted (text : String) (root : Node) : Prop :=
  ∀ node ∈ root.nodes, node.row = Text.newlinesBefore text node.start

instance (text : String) (root : Node) : Decidable (root.RowsCounted text) :=
  inferInstanceAs (Decidable (∀ node ∈ root.nodes, _))

theorem nodes_eq (node : Node) : node.nodes = node :: nodesAmong node.children := by
  cases node
  rfl

theorem self_mem_nodes (node : Node) : node ∈ node.nodes := by
  rw [nodes_eq]
  exact List.mem_cons_self

theorem mem_nodesAmong {target : Node} {list : List Node} :
    target ∈ nodesAmong list ↔ ∃ node ∈ list, target ∈ node.nodes := by
  induction list with
  | nil => simp [nodesAmong]
  | cons node rest ih => simp [nodesAmong, ih]

mutual

/-- What is below a node of a tree is in the tree. -/
theorem mem_nodes_trans {node target : Node} (htarget : target ∈ node.nodes) :
    ∀ {root : Node}, node ∈ root.nodes → target ∈ root.nodes
  | ⟨_, _, _, _, _, _, children⟩, h => by
    rcases List.mem_cons.mp h with rfl | hbelow
    · exact htarget
    · exact List.mem_cons_of_mem _ (mem_nodesAmong_trans htarget hbelow)

theorem mem_nodesAmong_trans {node target : Node} (htarget : target ∈ node.nodes) :
    ∀ {list : List Node}, node ∈ nodesAmong list → target ∈ nodesAmong list
  | first :: rest, h => by
    rcases List.mem_append.mp h with hfirst | hrest
    · exact List.mem_append_left _ (mem_nodes_trans htarget hfirst)
    · exact List.mem_append_right _ (mem_nodesAmong_trans htarget hrest)

end

theorem mem_nodes_of_mem_children {node child : Node} (h : child ∈ node.children) :
    child ∈ node.nodes := by
  rw [nodes_eq]
  exact List.mem_cons_of_mem _ (mem_nodesAmong.mpr ⟨child, h, child.self_mem_nodes⟩)

theorem mem_nodes_of_follow? {node target : Node} {way : List Nat}
    (h : node.follow? way = some target) : target ∈ node.nodes := by
  induction way generalizing node with
  | nil => cases h
  | cons i way ih =>
    cases way with
    | nil => exact mem_nodes_of_mem_children (List.mem_of_getElem? h)
    | cons j way =>
      rw [follow?_cons_cons, Option.bind_eq_some_iff] at h
      obtain ⟨child, hchild, hrest⟩ := h
      exact mem_nodes_trans (ih hrest) (mem_nodes_of_mem_children (List.mem_of_getElem? hchild))

/-- The name node is in the tree of the declaring node. -/
theorem mem_nodes_of_nameNode? {node target : Node} (h : node.nameNode? = some target) :
    target ∈ node.nodes := by
  obtain ⟨way, hway⟩ := isBelow_of_nameNode? h
  exact mem_nodes_of_follow? hway

/-! ## What a symbol is read from -/

theorem newline_not_mem_firstLine (text : List Char) (node : Node) :
    '\n' ∉ node.firstLine text := by
  unfold firstLine
  split
  · exact fun hmem => Text.newline_not_mem_firstLine _ (Text.mem_of_mem_trim hmem)
  · exact List.not_mem_nil

/-- The name of a declaration is on one line, and its row is that of a node in its tree. -/
theorem nameAndRow_spec (text : List Char) (node : Node) :
    '\n' ∉ (node.nameAndRow text).1 ∧ ∃ target ∈ node.nodes, (node.nameAndRow text).2 = target.row := by
  unfold nameAndRow
  split
  · rename_i name hname
    exact ⟨newline_not_mem_firstLine text name, name, mem_nodes_of_nameNode? hname, rfl⟩
  · exact ⟨List.not_mem_nil, node, node.self_mem_nodes, rfl⟩

/-- Every kind that a node can stand for has a label. -/
theorem isSome_label?_of_mem_rules : ∀ {language : Language} {rule : NodeRule},
    rule ∈ language.rules → rule.kind.label?.isSome := by
  have hall : ∀ language : Language, ∀ rule ∈ language.rules, rule.kind.label?.isSome := by
    intro language
    cases language <;> decide
  exact fun {language} {rule} => hall language rule

theorem isSome_label?_reportedKind (node : Node) {ruleKind : Kind} (parent : Option Kind)
    (name : List Char) (h : ruleKind.label?.isSome) :
    (node.reportedKind ruleKind parent name).label?.isSome := by
  unfold reportedKind
  split
  · split <;> rfl
  · split <;> rfl
  · split <;> rfl
  · exact h

/-- A symbol that a node declares has a name on one line, a kind with a label, and the row of a node
    in its tree for its line. -/
theorem shown_of_symbol? {language : Language} {text : List Char} {parent : Option Kind}
    {node : Node} {symbol : Symbol} (h : node.symbol? language text parent = some symbol) :
    '\n' ∉ symbol.name.toList ∧ symbol.kind.label?.isSome ∧
      ∃ target ∈ node.nodes, symbol.line = target.row % lineLimit := by
  obtain ⟨rule, hrule, rfl⟩ := Option.map_eq_some_iff.mp h
  obtain ⟨hname, target, htarget, hrow⟩ := nameAndRow_spec text node
  refine ⟨?_, ?_, target, htarget, by rw [← hrow]⟩
  · change '\n' ∉ (if (node.nameAndRow text).1.isEmpty then anonymousName
      else String.ofList (node.nameAndRow text).1).toList
    split
    · decide
    · rwa [String.toList_ofList]
  · have hmem := List.mem_of_find?_eq_some (Option.filter_eq_some_iff.mp hrule).1
    exact isSome_label?_reportedKind node parent _ (isSome_label?_of_mem_rules hmem)

/-- Every symbol of a tree is declared by a node of the tree. -/
theorem exists_node_of_mem_preorder {language : Language} {text : String} {root : Node}
    {row : Nat × Symbol} (h : row ∈ Symbol.preorder 0 (root.symbols language text)) :
    ∃ node ∈ root.nodes, ∃ around : Option Kind,
      node.symbol? language text.toList around = some { row.2 with children := [] } := by
  rw [Symbol.preorder_eq_map_placed] at h
  obtain ⟨p, hp, rfl⟩ := List.mem_map.mp h
  have hfollows := follows_declarations language text root
  obtain ⟨d, hpair⟩ := hfollows.exists_declaration hp
  obtain ⟨around, hsymbol, -⟩ := hfollows.symbol_eq _ hpair
  have hway := follow?_of_mem_declarations (List.of_mem_zip hpair).2
  exact ⟨d.item, mem_nodes_of_follow? hway, around, hsymbol⟩

/-! ## The outline of a tree -/

theorem namesOnOneLine_symbols (language : Language) (text : String) (root : Node) :
    Symbol.NamesOnOneLine (root.symbols language text) := by
  intro row hrow
  obtain ⟨node, -, around, hsymbol⟩ := exists_node_of_mem_preorder hrow
  exact (shown_of_symbol? hsymbol).1

theorem showable_symbols (language : Language) {text : String} {root : Node}
    (hrows : root.RowsCounted text) :
    ∀ row ∈ Symbol.preorder 0 (root.symbols language text),
      Outline.Showable (.ofText text) row.2 := by
  intro row hrow
  obtain ⟨node, hnode, around, hsymbol⟩ := exists_node_of_mem_preorder hrow
  obtain ⟨-, hlabel, target, htarget, hline⟩ := shown_of_symbol? hsymbol
  refine ⟨?_, hlabel⟩
  -- Cutting a row down to 32 bits can only bring it nearer to the first line.
  calc row.2.line = target.row % lineLimit := hline
    _ ≤ target.row := Nat.mod_le _ _
    _ = Text.newlinesBefore text target.start := hrows target (mem_nodes_trans htarget hnode)
    _ < (Text.Source.ofText text).size := Text.newlinesBefore_lt_size text target.start

/-- A tree whose rows are counted has an outline, with a line for each of its symbols. -/
theorem exists_render_symbols (language : Language) {text : String} {root : Node}
    (hrows : root.RowsCounted text) :
    ∃ out, Outline.render (.ofText text) (root.symbols language text) = .ok out ∧
      ∃ lines, Text.splitOnChar '\n' out.toList = lines ++ [[]] ∧
        lines.length = Symbol.countAll (root.symbols language text) := by
  have hrender := Outline.render_eq_ok_iff.mpr ⟨showable_symbols language hrows, rfl⟩
  refine ⟨_, hrender, _, Outline.splitOnChar_rows (namesOnOneLine_symbols language text root) hrender,
    ?_⟩
  rw [List.length_map, Symbol.length_preorder]

end Node

end CodeOutline
