import CodeOutline.Proofs.SyntaxTree.Shown
import CodeOutline.Proofs.Text.Offsets

/-! # The names of symbols

A name is cut out of the text by the bytes of its node, and the line of a symbol is found by the row of
that node; an outline takes the visibility and the return type from that line.  Here the name is shown
to stand on it, whatever way the name node was found, and to be fit for one row of an outline.

A node whose bytes are no text, or only blanks up to the first line feed, has the empty name, and so
has a declaration without a name node.  Its symbol is called `anonymousName` instead, which is the one
name that need not stand on its line.
-/

namespace CodeOutline

open Text (Source)

/-- A name for one row of an outline: not empty, on one line, and without blanks around it. -/
structure IsTidyName (name : String) : Prop where
  ne_empty : name ≠ ""
  newline_not_mem : '\n' ∉ name.toList
  not_blank_of_mem_head : ∀ c ∈ name.toList.head?, Text.isBlank c = false
  not_blank_of_mem_getLast : ∀ c ∈ name.toList.getLast?, Text.isBlank c = false

theorem isTidyName_anonymousName : IsTidyName anonymousName := by
  refine ⟨by decide, by decide, fun c hc => ?_, fun c hc => ?_⟩
  · obtain rfl : '<' = c := Option.some.inj hc
    rfl
  · obtain rfl : '>' = c := Option.some.inj hc
    rfl

namespace Node

/-! ## The text of a node -/

theorem firstLine_cases (text : List Char) (node : Node) :
    node.firstLine text = [] ∨ ∃ own, Text.span? text node.start node.stop = some own ∧
      node.firstLine text = Text.trim (Text.firstLine own) := by
  unfold firstLine
  cases hspan : Text.span? text node.start node.stop with
  | none => exact .inl rfl
  | some own => exact .inr ⟨own, rfl, rfl⟩

theorem isTidyName_firstLine {text : List Char} {node : Node} (h : node.firstLine text ≠ []) :
    IsTidyName (String.ofList (node.firstLine text)) := by
  have hnewline := newline_not_mem_firstLine text node
  obtain ⟨own, -, heq⟩ := (firstLine_cases text node).resolve_left h
  rw [heq] at h hnewline ⊢
  constructor
  · exact fun hempty => h (by simpa using congrArg String.toList hempty)
  · rwa [String.toList_ofList]
  · rw [String.toList_ofList]
    exact fun c hc => Text.isBlank_of_mem_head?_trim hc
  · rw [String.toList_ofList]
    exact fun c hc => Text.isBlank_of_mem_getLast?_trim hc

theorem exists_line_of_firstLine {text : String} {node : Node}
    (hrow : node.row = Text.newlinesBefore text node.start) :
    ∃ line, (Source.ofText text).line? node.row = some line ∧
      node.firstLine text.toList <:+: line.toList := by
  rw [hrow]
  rcases firstLine_cases text.toList node with hempty | ⟨own, hspan, heq⟩
  · have hthere := Text.newlinesBefore_lt_size text node.start
    exact ⟨_, List.getElem?_eq_getElem hthere, hempty ▸ List.nil_infix⟩
  · rw [heq]
    exact Text.exists_line_of_span? hspan

/-! ## The name of a declaration -/

theorem RowsCounted.of_mem_nodes {text : String} {root node : Node} (h : root.RowsCounted text)
    (hnode : node ∈ root.nodes) : node.RowsCounted text := fun target htarget =>
  h target (mem_nodes_trans htarget hnode)

theorem isTidyName_nameAndRow {text : List Char} {node : Node} (h : (node.nameAndRow text).1 ≠ []) :
    IsTidyName (String.ofList (node.nameAndRow text).1) := by
  unfold nameAndRow at h ⊢
  cases hname : node.nameNode? with
  | some name =>
    rw [hname] at h
    exact isTidyName_firstLine h
  | none =>
    rw [hname] at h
    exact absurd rfl h

theorem exists_line_of_nameAndRow {text : String} {node : Node} (hrows : node.RowsCounted text) :
    ∃ line, (Source.ofText text).line? (node.nameAndRow text.toList).2 = some line ∧
      (node.nameAndRow text.toList).1 <:+: line.toList := by
  unfold nameAndRow
  cases hname : node.nameNode? with
  | some name => exact exists_line_of_firstLine (hrows name (mem_nodes_of_nameNode? hname))
  | none =>
    obtain ⟨line, hline, -⟩ := exists_line_of_firstLine (hrows node node.self_mem_nodes)
    exact ⟨line, hline, List.nil_infix⟩

/-- The symbol of a declaration has a tidy name, and this stands on the line of the symbol. -/
theorem name_of_symbol? {language : Language} {text : String} {parent : Option Kind} {node : Node}
    {symbol : Symbol} (hrows : node.RowsCounted text)
    (hlines : (Source.ofText text).size < Nat.pow 2 32)
    (h : node.symbol? language text.toList parent = some symbol) :
    IsTidyName symbol.name ∧ ∃ line, (Source.ofText text).line? symbol.line = some line ∧
      (symbol.name = anonymousName ∨ symbol.name.toList <:+: line.toList) := by
  obtain ⟨rule, -, rfl⟩ := Option.map_eq_some_iff.mp h
  obtain ⟨line, hline, hinside⟩ := exists_line_of_nameAndRow hrows
  -- No row is so large that it would be cut down to 32 bits.
  have hrow : (node.nameAndRow text.toList).2 % lineLimit = (node.nameAndRow text.toList).2 := by
    have hthere : (node.nameAndRow text.toList).2 < (Source.ofText text).size :=
      (List.getElem?_eq_some_iff.mp hline).1
    exact Nat.mod_eq_of_lt (Nat.lt_trans hthere hlines)
  by_cases hname : (node.nameAndRow text.toList).1 = []
  · simp only [hrow, hname, List.isEmpty_nil, if_true]
    exact ⟨isTidyName_anonymousName, line, hline, .inl trivial⟩
  · simp only [hrow, List.isEmpty_iff, hname, if_false, String.toList_ofList]
    exact ⟨isTidyName_nameAndRow hname, line, hline, .inr hinside⟩

end Node

/-! ## The names of all symbols -/

/-- Every symbol that is extracted from a text, at any depth, has a tidy name.  Unless it is that of a
    declaration without one, the name stands on the line of the symbol, and this is the line that the
    row of the symbol is made from. -/
theorem extracted_names_stand_on_their_line {grammars : Grammars} {language : Language}
    {text : String} (hrows : (grammars language text).RowsCounted text)
    (hlines : (Source.ofText text).size < Nat.pow 2 32) :
    (language ≠ .unknown → ∃ symbols, Provider.extract grammars language text = .ok symbols) ∧
    ∀ symbols, Provider.extract grammars language text = .ok symbols →
      ∀ row ∈ Symbol.preorder 0 symbols,
        IsTidyName row.2.name ∧
        ∃ line label, (Source.ofText text).line? row.2.line = some line ∧
          (row.2.name = anonymousName ∨ row.2.name.toList <:+: line.toList) ∧
          row.2.kind.label? = some label ∧
          Outline.renderLine (.ofText text) row.1 row.2.name row.2.kind row.2.line =
            .ok (Outline.lineText row.1 line label row.2.name row.2.kind) := by
  unfold Provider.extract
  refine ⟨fun hknown => ⟨_, if_neg hknown⟩, fun symbols h row hrow => ?_⟩
  split at h
  · cases h
  · cases h
    obtain ⟨node, hnode, around, hsymbol⟩ := Node.exists_node_of_mem_preorder hrow
    obtain ⟨htidy, line, hline, hname⟩ :=
      Node.name_of_symbol? (hrows.of_mem_nodes hnode) hlines hsymbol
    obtain ⟨label, hlabel⟩ := Option.isSome_iff_exists.mp (Node.shown_of_symbol? hsymbol).2.1
    refine ⟨htidy, line, label, hline, hname, hlabel, ?_⟩
    simp only [Outline.renderLine, hline, hlabel]

/-- A declaration with a pattern on two lines, behind a character of two bytes. -/
def patternText : String :=
  "/* é */ const \x7b a,\r\n  b \x7d = c\r\n"

/-- The tree of `patternText`. -/
def patternTree : Node :=
  ⟨"program", true, 0, 0, 32, [],
    [⟨"lexical_declaration", true, 0, 9, 30, [],
      [⟨"variable_declarator", true, 0, 15, 30, [(.name, [0])],
        [⟨"object_pattern", true, 0, 15, 26, [], []⟩,
          ⟨"identifier", true, 1, 29, 30, [], []⟩]⟩]⟩]⟩

/-- A pattern on two lines gives its symbol the name that its first line shows. -/
theorem extracted_names_stand_on_their_line_pattern :
    patternTree.RowsCounted patternText ∧ (Source.ofText patternText).size < Nat.pow 2 32 ∧
      ∃ symbols, Provider.extract (fun _ _ => patternTree) .javaScript patternText = .ok symbols ∧
        (Symbol.preorder 0 symbols).map (fun row => (row.2.name, row.2.line)) = [("\x7b a,", 0)] ∧
        ∀ row ∈ Symbol.preorder 0 symbols, IsTidyName row.2.name ∧
          ∃ line, (Source.ofText patternText).line? row.2.line = some line ∧
            row.2.name.toList <:+: line.toList := by
  have hrows : patternTree.RowsCounted patternText := by decide
  have hlines : (Source.ofText patternText).size < Nat.pow 2 32 := by decide
  obtain ⟨-, hnames⟩ := @extracted_names_stand_on_their_line (fun _ _ => patternTree) .javaScript
    patternText hrows hlines
  refine ⟨hrows, hlines, _, rfl, rfl, fun row hrow => ?_⟩
  obtain ⟨htidy, line, -, hline, hname, -⟩ := hnames _ rfl row hrow
  obtain rfl := List.mem_singleton.mp hrow
  exact ⟨htidy, line, hline, hname.resolve_left (by decide)⟩

end CodeOutline
