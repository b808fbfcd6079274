import CodeOutline.Proofs.SyntaxTree.Placed

/-! # Symbols and declarations

The walk over a syntax tree makes one symbol of each declaration.  It has two ways to go on below a
node: a declaration starts a list of children of its own, any other node adds to the list at hand.
So the symbols form a forest of a different shape than the tree, and the places of a symbol and of
its declaration are not the same.

What they have in common is the order.  `Follows` says that symbols and declarations come one by
one in the same sequence and that one symbol encloses another exactly if its declaration encloses
that of the other.  The walk keeps this at every node (`follows_symbolsAt`), whatever the place it
has reached in the tree and in the forest.  How deep a symbol stands and which symbol is its parent
follow from it.
-/

namespace CodeOutline

/-- Symbols that come one by one from declarations.  The symbols stand below the place `place`,
    which belongs to a symbol of the kind `parent` or to the top. -/
structure Follows (language : Language) (text : List Char) (parent : Option Kind)
    (place : List Nat) (symbols : List (Placed Symbol)) (declared : List (Placed Node)) : Prop where
  /-- There are as many of the one as of the other. -/
  length_eq : symbols.length = declared.length
  /-- A symbol is that of its declaration inside of a symbol of some kind, which is the kind of the
      symbol directly around it. -/
  symbol_eq : ∀ pair ∈ symbols.zip declared, ∃ around : Option Kind,
    pair.2.item.symbol? language text around = some { pair.1.item with children := [] } ∧
      ((∃ i, pair.1.way = place ++ [i]) ∧ around = parent ∨
        ∃ outer ∈ symbols, outer.IsParent pair.1 ∧ around = some outer.item.kind)
  /-- A way is the beginning of another on both sides or on neither. -/
  isPrefix_iff : ∀ a ∈ symbols.zip declared, ∀ b ∈ symbols.zip declared,
    (a.1.way <+: b.1.way ↔ a.2.way <+: b.2.way)

namespace Follows

variable {language : Language} {text : List Char} {parent : Option Kind} {place : List Nat}

theorem nil : Follows language text parent place [] [] :=
  ⟨rfl, nofun, nofun⟩

/-- Sequences that are apart on both sides can be put one behind the other. -/
theorem append {symbols symbols' : List (Placed Symbol)} {declared declared' : List (Placed Node)}
    (h : Follows language text parent place symbols declared)
    (h' : Follows language text parent place symbols' declared')
    (hsymbols : ∀ p ∈ symbols, ∀ q ∈ symbols', p.Apart q)
    (hdeclared : ∀ d ∈ declared, ∀ e ∈ declared', d.Apart e) :
    Follows language text parent place (symbols ++ symbols') (declared ++ declared') := by
  have hzip : (symbols ++ symbols').zip (declared ++ declared') =
      symbols.zip declared ++ symbols'.zip declared' := List.zip_append h.length_eq
  refine ⟨by rw [List.length_append, List.length_append, h.length_eq, h'.length_eq], ?_, ?_⟩
  · intro pair hpair
    rw [hzip] at hpair
    rcases List.mem_append.mp hpair with hpair | hpair
    · obtain ⟨around, hsymbol, htop | ⟨outer, houter, hway⟩⟩ := h.symbol_eq pair hpair
      · exact ⟨around, hsymbol, .inl htop⟩
      · exact ⟨around, hsymbol, .inr ⟨outer, List.mem_append_left _ houter, hway⟩⟩
    · obtain ⟨around, hsymbol, htop | ⟨outer, houter, hway⟩⟩ := h'.symbol_eq pair hpair
      · exact ⟨around, hsymbol, .inl htop⟩
      · exact ⟨around, hsymbol, .inr ⟨outer, List.mem_append_right _ houter, hway⟩⟩
  · intro a ha b hb
    rw [hzip] at ha hb
    -- What comes from different sequences is apart, on both sides.
    rcases List.mem_append.mp ha with ha | ha <;> rcases List.mem_append.mp hb with hb | hb
    · exact h.isPrefix_iff a ha b hb
    · exact iff_of_false (hsymbols _ (List.of_mem_zip ha).1 _ (List.of_mem_zip hb).1).1
        (hdeclared _ (List.of_mem_zip ha).2 _ (List.of_mem_zip hb).2).1
    · exact iff_of_false (hsymbols _ (List.of_mem_zip hb).1 _ (List.of_mem_zip ha).1).2
        (hdeclared _ (List.of_mem_zip hb).2 _ (List.of_mem_zip ha).2).2
    · exact h'.isPrefix_iff a ha b hb

/-- A declaration with what is below it gives a symbol with what is below that. -/
theorem cons {way : List Nat} {k high high' : Nat} {symbol : Symbol} {node : Node}
    {symbols : List (Placed Symbol)} {declared : List (Placed Node)}
    (hsymbol : node.symbol? language text parent = some { symbol with children := [] })
    (h : Follows language text (some symbol.kind) (place ++ [k]) symbols declared)
    (hsymbols : ∀ p ∈ symbols, p.Within (place ++ [k]) 0 high)
    (hdeclared : ∀ d ∈ declared, d.Within way 0 high') :
    Follows language text parent place (⟨place ++ [k], symbol⟩ :: symbols)
      (⟨way, node⟩ :: declared) := by
  refine ⟨congrArg Nat.succ h.length_eq, ?_, ?_⟩
  · intro pair hpair
    rcases List.mem_cons.mp hpair with rfl | hpair
    · exact ⟨parent, hsymbol, .inl ⟨⟨k, rfl⟩, rfl⟩⟩
    · obtain ⟨around, hinner, ⟨hway, haround⟩ | ⟨outer, houter, hway⟩⟩ := h.symbol_eq pair hpair
      · exact ⟨around, hinner, .inr ⟨_, List.mem_cons_self, hway, haround⟩⟩
      · exact ⟨around, hinner, .inr ⟨outer, List.mem_cons_of_mem _ houter, hway⟩⟩
  · intro a ha b hb
    -- The first symbol encloses all the others, and so does the first declaration.
    rcases List.mem_cons.mp ha with rfl | ha <;> rcases List.mem_cons.mp hb with rfl | hb
    · exact iff_of_true List.prefix_rfl List.prefix_rfl
    · exact iff_of_true (hsymbols _ (List.of_mem_zip hb).1).way_isPrefix
        (hdeclared _ (List.of_mem_zip hb).2).way_isPrefix
    · exact iff_of_false (hsymbols _ (List.of_mem_zip ha).1).not_way_isPrefix
        (hdeclared _ (List.of_mem_zip ha).2).not_way_isPrefix
    · exact h.isPrefix_iff a ha b hb

/-! ## Enclosing, depth and parent -/

variable {symbols : List (Placed Symbol)} {declared : List (Placed Node)}

theorem exists_declaration (h : Follows language text parent place symbols declared)
    {p : Placed Symbol} (hp : p ∈ symbols) : ∃ d, (p, d) ∈ symbols.zip declared := by
  rw [← List.map_fst_zip (Nat.le_of_eq h.length_eq)] at hp
  obtain ⟨pair, hpair, rfl⟩ := List.mem_map.mp hp
  exact ⟨pair.2, hpair⟩

theorem exists_symbol (h : Follows language text parent place symbols declared)
    {d : Placed Node} (hd : d ∈ declared) : ∃ p, (p, d) ∈ symbols.zip declared := by
  rw [← List.map_snd_zip (Nat.le_of_eq h.length_eq.symm)] at hd
  obtain ⟨pair, hpair, rfl⟩ := List.mem_map.mp hd
  exact ⟨pair.1, hpair⟩

theorem encloses_iff (h : Follows language text parent place symbols declared)
    {a b : Placed Symbol × Placed Node} (ha : a ∈ symbols.zip declared)
    (hb : b ∈ symbols.zip declared) : a.1.Encloses b.1 ↔ a.2.Encloses b.2 := by
  rw [Placed.encloses_iff, Placed.encloses_iff, h.isPrefix_iff a ha b hb, h.isPrefix_iff b hb a ha]

/-- As many symbols enclose a symbol as declarations enclose its declaration. -/
theorem countP_encloses (h : Follows language text parent place symbols declared)
    {pair : Placed Symbol × Placed Node} (hpair : pair ∈ symbols.zip declared) :
    symbols.countP (fun q => q.Encloses pair.1) = declared.countP (fun e => e.Encloses pair.2) := by
  have hsymbols := List.map_fst_zip (Nat.le_of_eq h.length_eq)
  have hdeclared := List.map_snd_zip (Nat.le_of_eq h.length_eq.symm)
  calc symbols.countP (fun q => q.Encloses pair.1)
      = (symbols.zip declared).countP (fun other => other.1.Encloses pair.1) := by
        rw [← hsymbols, List.countP_map, hsymbols]
        rfl
    _ = (symbols.zip declared).countP (fun other => other.2.Encloses pair.2) := by
        refine List.countP_congr fun other hother => ?_
        rw [decide_eq_true_iff, decide_eq_true_iff, h.encloses_iff hother hpair]
    _ = declared.countP (fun e => e.Encloses pair.2) := by
        rw [← hdeclared, List.countP_map, hdeclared]
        rfl

/-- A symbol is the parent of another exactly if its declaration is the nearest around that of the
    other. -/
theorem isParent_iff_isNearest (h : Follows language text parent place symbols declared)
    {high : Nat} (hwithin : ∀ p ∈ symbols, p.Within place 0 high)
    {a b : Placed Symbol × Placed Node} (ha : a ∈ symbols.zip declared)
    (hb : b ∈ symbols.zip declared) : a.1.IsParent b.1 ↔ Placed.IsNearest declared a.2 b.2 := by
  constructor
  · intro hparent
    refine ⟨(h.encloses_iff ha hb).mp hparent.encloses, fun e he hencloses => ?_⟩
    obtain ⟨q, hq⟩ := h.exists_symbol he
    have hle : q.way <+: a.1.way := hparent.way_isPrefix ((h.encloses_iff hq hb).mpr hencloses)
    exact (h.isPrefix_iff _ hq _ ha).mp hle
  · rintro ⟨hencloses, hnearest⟩
    have habove : a.1.Encloses b.1 := (h.encloses_iff ha hb).mpr hencloses
    obtain ⟨around, -, ⟨⟨i, hway⟩, -⟩ | ⟨outer, houter, hparent, -⟩⟩ := h.symbol_eq b hb
    · -- At the top there is nothing around a symbol.
      have htop : Placed.IsParent ⟨place, a.1.item⟩ b.1 := ⟨i, hway⟩
      exact absurd (htop.way_isPrefix habove)
        (hwithin _ (List.of_mem_zip ha).1).not_way_isPrefix
    · -- The parent's declaration encloses this one, so it is not nearer than the nearest.
      obtain ⟨e, he⟩ := h.exists_declaration houter
      have hle : e.way <+: a.2.way := hnearest e (List.of_mem_zip he).2
        ((h.encloses_iff he hb).mp hparent.encloses)
      have hway : outer.way = a.1.way := ((h.isPrefix_iff _ he _ ha).mpr hle).eq_of_length_le
        (hparent.way_isPrefix habove).length_le
      obtain ⟨i, hchild⟩ := hparent
      exact ⟨i, hway ▸ hchild⟩

end Follows

namespace Node

/-! ## The walk -/

/-- A node has a symbol exactly if it declares something. -/
theorem isSome_symbol? (language : Language) (text : List Char) (parent : Option Kind)
    (node : Node) : (node.symbol? language text parent).isSome = node.declares language := by
  rw [symbol?, declaringRule?, Option.isSome_map, Option.isSome_filter, declares]

/-- The symbol of a node alone has no children. -/
theorem children_of_symbol? {language : Language} {text : List Char} {parent : Option Kind}
    {node : Node} {symbol : Symbol} (h : node.symbol? language text parent = some symbol) :
    symbol.children = [] := by
  obtain ⟨rule, _, rfl⟩ := Option.map_eq_some_iff.mp h
  rfl

mutual

theorem follows_symbolsAt (language : Language) (text : List Char) :
    ∀ (node : Node) (parent : Option Kind) (above : List Nat) (i : Nat) (place : List Nat) (k : Nat),
      Follows language text parent place
        (Symbol.placedFrom place k (symbolsAt language text parent node))
        ((namedTree (above ++ [i]) node).filter fun d => d.item.declares language)
  | ⟨nodeType, named, row, start, stop, fields, children⟩, parent, above, i, place, k => by
    rw [symbolsAt, namedTree]
    split
    · have hdeclares := isSome_symbol? language text parent
        ⟨nodeType, named, row, start, stop, fields, children⟩
      split
      · rename_i symbol hsymbol
        -- A declaration: what is below it goes below its symbol.
        rw [hsymbol, Option.isSome_some] at hdeclares
        rw [List.filter_cons, if_pos hdeclares.symm, Symbol.placedFrom, Symbol.placedFrom,
          Symbol.placedTree_eq, List.append_nil]
        obtain ⟨name, kind, line, inner⟩ := symbol
        obtain rfl : inner = [] := children_of_symbol? hsymbol
        have hbelow := follows_symbolsAmong language text children (some kind) (above ++ [i]) 0
          (place ++ [k]) 0
        exact Follows.cons hsymbol hbelow
          (fun p hp => Symbol.within_of_mem_placedFrom hp)
          (fun d hd => within_of_mem_namedFrom (List.mem_filter.mp hd).1)
      · rename_i hsymbol
        -- Any other node: what is below it stays at the place that has been reached.
        rw [hsymbol, Option.isSome_none] at hdeclares
        rw [List.filter_cons, if_neg (by simp [← hdeclares])]
        exact follows_symbolsAmong language text children parent (above ++ [i]) 0 place k
    · exact .nil

/-- The symbols of siblings follow the declarations among and below them. -/
theorem follows_symbolsAmong (language : Language) (text : List Char) :
    ∀ (nodes : List Node) (parent : Option Kind) (above : List Nat) (i : Nat) (place : List Nat)
      (k : Nat),
      Follows language text parent place
        (Symbol.placedFrom place k (symbolsAmong language text parent nodes))
        ((namedFrom above i nodes).filter fun d => d.item.declares language)
  | [], _, _, _, _, _ => .nil
  | node :: rest, parent, above, i, place, k => by
    rw [symbolsAmong, namedFrom, Symbol.placedFrom_append, List.filter_append]
    refine Follows.append (follows_symbolsAt language text node parent above i place k)
      (follows_symbolsAmong language text rest parent above (i + 1) place _) ?_ ?_
    · exact fun p hp q hq => Placed.apart_of_within (Symbol.within_of_mem_placedFrom hp)
        (Symbol.within_of_mem_placedFrom hq)
    · exact fun d hd e he => Placed.apart_of_within
        (within_of_mem_namedTree (List.mem_filter.mp hd).1)
        (within_of_mem_namedFrom (List.mem_filter.mp he).1)

end

theorem follows_declarations (language : Language) (text : String) (root : Node) :
    Follows language text.toList none [] (Symbol.placed (root.symbols language text))
      (root.declarations language) :=
  follows_symbolsAmong language text.toList root.children none [] 0 [] 0

/-- The symbols of a tree and its declarations come in the same pre-order.  A symbol has the name
    and the line of its declaration, and its kind, which depends on the kind of the symbol around
    it; it is nested as deep as declarations enclose its own; and the nearest of these is the
    declaration of its parent. -/
theorem symbols_follow_declarations (language : Language) (text : String) (root : Node) :
    let symbols := root.symbols language text
    let placed := Symbol.placed symbols
    let declared := root.declarations language
    Symbol.preorder 0 symbols = placed.map (fun p => (p.depth, p.item)) ∧
      (∀ p ∈ placed, Symbol.follow? symbols p.way = some p.item) ∧
      (∀ d ∈ declared, root.follow? d.way = some d.item) ∧
      placed.length = declared.length ∧
      ∀ pair ∈ placed.zip declared,
        (∃ around : Option Kind,
          pair.2.item.symbol? language text.toList around =
            some { pair.1.item with children := [] } ∧
          (pair.1.depth = 0 ∧ around = none ∨
            ∃ outer ∈ placed, outer.IsParent pair.1 ∧ around = some outer.item.kind)) ∧
        pair.1.depth = declared.countP (fun d => d.Encloses pair.2) ∧
        ∀ other ∈ placed.zip declared,
          (other.1.IsParent pair.1 ↔ Placed.IsNearest declared other.2 pair.2) := by
  intro symbols placed declared
  have hfollows : Follows language text.toList none [] placed declared :=
    follows_declarations language text root
  refine ⟨Symbol.preorder_eq_map_placed symbols, fun p hp => Symbol.follow?_of_mem_placed hp,
    fun d hd => follow?_of_mem_declarations hd, hfollows.length_eq, fun pair hpair => ?_⟩
  refine ⟨?_, ?_, fun other hother => hfollows.isParent_iff_isNearest
    (fun p hp => Symbol.within_of_mem_placedFrom hp) hother hpair⟩
  · obtain ⟨around, hsymbol, ⟨⟨i, hway⟩, haround⟩ | hparent⟩ := hfollows.symbol_eq pair hpair
    · exact ⟨around, hsymbol, .inl ⟨by simp [Placed.depth, hway], haround⟩⟩
    · exact ⟨around, hsymbol, .inr hparent⟩
  · rw [← hfollows.countP_encloses hpair, Symbol.countP_encloses_placed (List.of_mem_zip hpair).1]

/-- A class with a constructor, on two lines. -/
def classText : String :=
  "class C \x7b constructor\n() \x7b\x7d \x7d\n"

/-- The tree of `classText`. -/
def classTree : Node :=
  ⟨"program", true, 0, 0, 30, [],
    [⟨"class_declaration", true, 0, 0, 29, [(.name, [0]), (.body, [1])],
      [⟨"identifier", true, 0, 6, 7, [], []⟩,
        ⟨"class_body", true, 0, 8, 29, [],
          [⟨"method_definition", true, 0, 10, 27, [(.name, [0]), (.body, [2])],
            [⟨"property_identifier", true, 0, 10, 21, [], []⟩,
              ⟨"formal_parameters", true, 1, 22, 24, [], []⟩,
              ⟨"statement_block", true, 1, 25, 27, [], []⟩]⟩]⟩]⟩]⟩

/-- The constructor of a class is found through the body of the class, which declares nothing. -/
theorem symbols_follow_declarations_class_body :
    let placed := Symbol.placed (classTree.symbols .javaScript classText)
    let declared := classTree.declarations .javaScript
    ∃ outer ∈ placed.zip declared, ∃ inner ∈ placed.zip declared,
      outer.1.item.kind = .classDecl ∧ inner.1.item.kind = .constructor ∧
        inner.1.depth = declared.countP (fun d => d.Encloses inner.2) ∧
        outer.1.IsParent inner.1 ∧ Placed.IsNearest declared outer.2 inner.2 := by
  intro placed declared
  obtain ⟨-, -, -, -, hpairs⟩ := symbols_follow_declarations .javaScript classText classTree
  have houter : (placed.zip declared)[0]? = some _ := rfl
  have hinner : (placed.zip declared)[1]? = some _ := rfl
  obtain ⟨-, hdepth, hparent⟩ := hpairs _ (List.mem_of_getElem? hinner)
  exact ⟨_, List.mem_of_getElem? houter, _, List.mem_of_getElem? hinner, rfl, rfl, hdepth,
    ⟨0, rfl⟩, (hparent _ (List.mem_of_getElem? houter)).mp ⟨0, rfl⟩⟩

end Node

end CodeOutline
