import CodeOutline.Proofs.SyntaxTree.Placed

/-! # Where the name of a declaration is found

The name node is looked for in two parts of the tree.  The first is the chain of `declarator` fields
(`DeclaratorChain`).  It ends, since every field leads to a smaller tree, and so following it ends as
well (`DeclaratorChain.declared_eq`).

The second are the nodes below, without bodies and what is inside of them.  The search stops at the
first hit and never makes a list of these nodes.  It gives what it would find in the list
(`firstBelow?_eq_find?`), and the list is what is left of all named nodes below when those at or inside
of a body are taken out (`searched_eq_map_outsideBodies`).
-/

namespace CodeOutline.Node

/-- `DeclaratorChain node chain`: the nodes along the `declarator` fields from `node` on, with itself as
    the first and one without such a field as the last. -/
inductive DeclaratorChain : Node → List Node → Prop where
  | last {node : Node} (h : node.field? .declarator = none) : DeclaratorChain node [node]
  | step {node inner : Node} {chain : List Node} (h : node.field? .declarator = some inner)
      (hrest : DeclaratorChain inner chain) : DeclaratorChain node (node :: chain)

/-- A node stands below another one, not at its place. -/
def IsBelow (target node : Node) : Prop :=
  ∃ way, node.follow? way = some target

/-- None of the listed nodes that is a body stands at the place or encloses it. -/
def OutsideBodies (list : List (Placed Node)) (p : Placed Node) : Prop :=
  ∀ q ∈ list, q.item.isBody = true → ¬ q.way <+: p.way

instance (list : List (Placed Node)) (p : Placed Node) : Decidable (OutsideBodies list p) :=
  inferInstanceAs (Decidable (∀ q ∈ list, _))

/-- The named nodes below a node that are outside of all bodies, in pre-order. -/
def outsideBodies (node : Node) : List (Placed Node) :=
  (namedFrom [] 0 node.children).filter fun p => OutsideBodies (namedFrom [] 0 node.children) p

/-! ## Below a node -/

theorem follow?_append {node middle target : Node} {way rest : List Nat}
    (h : node.follow? way = some middle) (h' : middle.follow? rest = some target) :
    node.follow? (way ++ rest) = some target := by
  induction way generalizing node with
  | nil => cases h
  | cons i way ih =>
    cases way with
    | nil =>
      cases rest with
      | nil => cases h'
      | cons j rest =>
        have hchild : node.children[i]? = some middle := h
        simp [follow?_cons_cons, hchild, h']
    | cons j way =>
      rw [follow?_cons_cons, Option.bind_eq_some_iff] at h
      obtain ⟨child, hchild, hway⟩ := h
      have hbelow := ih hway
      rw [List.cons_append] at hbelow
      simp [follow?_cons_cons, hchild, hbelow]

theorem IsBelow.trans {node middle target : Node} (h : target.IsBelow middle)
    (h' : middle.IsBelow node) : target.IsBelow node := by
  obtain ⟨rest, hrest⟩ := h
  obtain ⟨way, hway⟩ := h'
  exact ⟨way ++ rest, follow?_append hway hrest⟩

theorem isBelow_of_field? {node target : Node} {field : FieldName}
    (h : node.field? field = some target) : target.IsBelow node := by
  obtain ⟨way, -, hway⟩ := Option.bind_eq_some_iff.mp h
  exact ⟨way, hway⟩

/-! ## The chain of declarators -/

theorem exists_declaratorChain (node : Node) : ∃ chain, DeclaratorChain node chain := by
  cases h : node.field? .declarator with
  | none => exact ⟨[node], .last h⟩
  | some inner =>
    obtain ⟨chain, hchain⟩ := exists_declaratorChain inner
    exact ⟨node :: chain, .step h hchain⟩
termination_by sizeOf node
decreasing_by exact sizeOf_lt_of_field? h

namespace DeclaratorChain

variable {node : Node} {chain other : List Node}

theorem unique (h : DeclaratorChain node chain) (h' : DeclaratorChain node other) :
    other = chain := by
  induction h generalizing other with
  | last hnone =>
    cases h' with
    | last _ => rfl
    | step hsome _ => simp [hnone] at hsome
  | step hsome _ ih =>
    cases h' with
    | last hnone => simp [hnone] at hsome
    | step hsome' hrest =>
      rw [hsome, Option.some.injEq] at hsome'
      subst hsome'
      rw [ih hrest]

theorem ne_nil (h : DeclaratorChain node chain) : chain ≠ [] := by
  cases h <;> simp

theorem isBelow_of_mem (h : DeclaratorChain node chain) {target : Node} (hmem : target ∈ chain) :
    target = node ∨ target.IsBelow node := by
  induction h with
  | last _ => exact .inl (List.mem_singleton.mp hmem)
  | step hinner _ ih =>
    have hbelow := isBelow_of_field? hinner
    cases hmem with
    | head => exact .inl rfl
    | tail _ hrest =>
      cases ih hrest with
      | inl heq => exact .inr (heq ▸ hbelow)
      | inr hdeeper => exact .inr (hdeeper.trans hbelow)

theorem isBelow_of_getLast? (h : DeclaratorChain node chain) {target : Node}
    (hmoved : 1 < chain.length) (hlast : chain.getLast? = some target) : target.IsBelow node := by
  cases h with
  | last _ => simp at hmoved
  | step hinner hrest =>
    rw [List.getLast?_cons_of_ne_nil hrest.ne_nil] at hlast
    have hbelow := isBelow_of_field? hinner
    cases hrest.isBelow_of_mem (List.mem_of_getLast? hlast) with
    | inl heq => rwa [heq]
    | inr hdeeper => exact hdeeper.trans hbelow

/-- Following the fields ends at the first name along the chain, or else at its last node. -/
theorem declared_eq (h : DeclaratorChain node chain) :
    some ((declared node).elim id id) =
      (chain.findSome? fun n => n.field? .name).or chain.getLast? := by
  fun_induction declared node generalizing chain with
  | case1 node name hname => cases h <;> simp [hname]
  | case2 node hname inner hinner ih =>
    cases h with
    | last hnone => simp [hinner] at hnone
    | step hsome hrest =>
      rw [hinner, Option.some.injEq] at hsome
      subst hsome
      rw [ih hrest, List.findSome?_cons, hname, List.getLast?_cons_of_ne_nil hrest.ne_nil]
  | case3 node hname hnone =>
    cases h with
    | last _ => simp [hname]
    | step hsome _ => simp [hnone] at hsome

end DeclaratorChain

/-! ## Searching below a node -/

theorem searched_eq (node : Node) : node.searched = searchedAmong node.children := by
  cases node
  rfl

mutual

theorem firstBelow?_eq_find? (p : Node → Bool) :
    ∀ node : Node, node.firstBelow? p = node.searched.find? p
  | ⟨_, _, _, _, _, _, children⟩ => firstAmong?_eq_find? p children

theorem firstAmong?_eq_find? (p : Node → Bool) :
    ∀ nodes : List Node, firstAmong? p nodes = (searchedAmong nodes).find? p
  | [] => rfl
  | node :: rest => by
    have hbelow := firstBelow?_eq_find? p node
    have hrest := firstAmong?_eq_find? p rest
    rw [firstAmong?, searchedAmong]
    split
    · exact hrest
    · rw [List.find?_cons, List.find?_append, hbelow, hrest]
      cases p node <;> rfl

end

/-! ## What is searched -/

theorem filter_outsideBodies_append {list others : List (Placed Node)}
    (hapart : ∀ p ∈ list, ∀ q ∈ others, p.Apart q) :
    (list ++ others).filter (fun p => OutsideBodies (list ++ others) p) =
      list.filter (fun p => OutsideBodies list p) ++
        others.filter (fun p => OutsideBodies others p) := by
  have hleft : ∀ p ∈ list, OutsideBodies (list ++ others) p ↔ OutsideBodies list p := by
    intro p hp
    simp only [OutsideBodies, List.forall_mem_append]
    exact and_iff_left fun q hq _ => (hapart p hp q hq).2
  have hright : ∀ p ∈ others, OutsideBodies (list ++ others) p ↔ OutsideBodies others p := by
    intro p hp
    simp only [OutsideBodies, List.forall_mem_append]
    exact and_iff_right fun q hq _ => (hapart q hq p hp).1
  rw [List.filter_append, List.filter_congr fun p hp => decide_eq_decide.mpr (hleft p hp),
    List.filter_congr fun p hp => decide_eq_decide.mpr (hright p hp)]

/-- A node at the top takes everything below it out if it is a body, and nothing otherwise. -/
theorem filter_outsideBodies_cons {top : Placed Node} {list : List (Placed Node)}
    (hbelow : ∀ p ∈ list, top.Encloses p) :
    (top :: list).filter (fun p => OutsideBodies (top :: list) p) =
      if top.item.isBody then [] else top :: list.filter fun p => OutsideBodies list p := by
  cases hbody : top.item.isBody with
  | true =>
    simp only [if_true, List.filter_eq_nil_iff, decide_eq_true_eq]
    intro p hp hfree
    apply hfree top List.mem_cons_self hbody
    cases hp with
    | head => exact List.prefix_rfl
    | tail _ hp => exact (hbelow p hp).1
  | false =>
    have hsame : ∀ p, OutsideBodies (top :: list) p ↔ OutsideBodies list p := by
      intro p
      simp [OutsideBodies, hbody]
    have htop : OutsideBodies list top := fun q hq _ => (Placed.encloses_iff.mp (hbelow q hq)).2
    simp [hsame, htop]

theorem searchedAmong_cons (node : Node) (rest : List Node) :
    searchedAmong (node :: rest) = searchedAmong [node] ++ searchedAmong rest := by
  simp only [searchedAmong]
  split <;> simp

mutual

theorem searchedAmong_singleton_eq (above : List Nat) (i : Nat) : ∀ node : Node,
    searchedAmong [node] =
      ((namedTree (above ++ [i]) node).filter fun p =>
        OutsideBodies (namedTree (above ++ [i]) node) p).map Placed.item
  | ⟨nodeType, false, row, start, stop, fields, children⟩ => by
    simp [searchedAmong, namedTree]
  | ⟨nodeType, true, row, start, stop, fields, children⟩ => by
    have hbelow : ∀ p ∈ namedFrom (above ++ [i]) 0 children, Placed.Encloses
        ⟨above ++ [i], ⟨nodeType, true, row, start, stop, fields, children⟩⟩ p := by
      intro p hp
      have hwithin := within_of_mem_namedFrom hp
      exact Placed.encloses_iff.mpr ⟨hwithin.way_isPrefix, hwithin.not_way_isPrefix⟩
    rw [namedTree, if_pos rfl, filter_outsideBodies_cons hbelow]
    have hchildren := searchedAmong_eq (above ++ [i]) 0 children
    simp only [searchedAmong, searched, Bool.not_true, Bool.false_or, List.append_nil]
    split
    · rfl
    · rw [List.map_cons, hchildren]

theorem searchedAmong_eq (above : List Nat) (i : Nat) : ∀ nodes : List Node,
    searchedAmong nodes =
      ((namedFrom above i nodes).filter fun p => OutsideBodies (namedFrom above i nodes) p).map
        Placed.item
  | [] => rfl
  | node :: rest => by
    have hapart : ∀ p ∈ namedTree (above ++ [i]) node, ∀ q ∈ namedFrom above (i + 1) rest,
        p.Apart q := by
      intro p hp q hq
      exact Placed.apart_of_within (within_of_mem_namedTree hp) (within_of_mem_namedFrom hq)
    rw [namedFrom, filter_outsideBodies_append hapart, List.map_append, searchedAmong_cons,
      searchedAmong_singleton_eq above i node, searchedAmong_eq above (i + 1) rest]

end

theorem searched_eq_map_outsideBodies (node : Node) :
    node.searched = node.outsideBodies.map Placed.item := by
  rw [searched_eq]
  exact searchedAmong_eq [] 0 node.children

theorem isBelow_of_mem_searched {node target : Node} (h : target ∈ node.searched) :
    target.IsBelow node := by
  rw [searched_eq_map_outsideBodies] at h
  obtain ⟨p, hp, rfl⟩ := List.mem_map.mp h
  obtain ⟨i, rest, -, hfollow⟩ := follow?_of_mem_namedFrom (List.mem_filter.mp hp).1
  exact ⟨i :: rest, hfollow node rfl⟩

/-! ## The name node -/

theorem guessedName?_eq (node : Node) :
    node.guessedName? =
      (if node.nodeType = "impl_item" then node.field? .type else none).or
        (((node.searched.find? fun n => (n.field? .name).isSome).bind fun n => n.field? .name).or
          (node.searched.find? isIdentifier)) := by
  have htype : ((node.field? .type).filter fun _ => node.nodeType == "impl_item") =
      if node.nodeType = "impl_item" then node.field? .type else none := by
    cases node.field? .type <;> simp [Option.filter]
  rw [guessedName?, firstBelow?_eq_find?, firstBelow?_eq_find?, htype]
  cases (if node.nodeType = "impl_item" then node.field? .type else none) <;> rfl

theorem nameNode?_eq {node : Node} {chain : List Node} (h : DeclaratorChain node chain) :
    node.nameNode? =
      (chain.findSome? fun n => n.field? .name).or
        ((if 1 < chain.length then chain.getLast? else none).or node.guessedName?) := by
  rw [nameNode?]
  cases h with
  | last hnone => cases hname : node.field? .name <;> simp [hnone, hname]
  | @step _ inner chain hinner hrest =>
    have hmoved : 1 < (node :: chain).length := by
      cases hrest <;> simp
    cases hname : node.field? .name with
    | some name => simp [hname]
    | none =>
      -- The chain behind the node gives a name or its last node, so nothing is left to guess.
      rw [if_pos hmoved, List.getLast?_cons_of_ne_nil hrest.ne_nil, List.findSome?_cons, hname,
        ← Option.or_assoc, ← hrest.declared_eq, hinner]
      cases hdeclared : declared inner <;> simp [hdeclared]

theorem isBelow_of_nameNode? {node target : Node} (h : node.nameNode? = some target) :
    target.IsBelow node := by
  obtain ⟨chain, hchain⟩ := exists_declaratorChain node
  rw [nameNode?_eq hchain, guessedName?_eq] at h
  simp only [Option.or_eq_some_iff] at h
  rcases h with hname | ⟨-, hlast | ⟨-, htype | ⟨-, hinner | ⟨-, hidentifier⟩⟩⟩⟩
  · obtain ⟨declarator, hmem, hfield⟩ := List.exists_of_findSome?_eq_some hname
    have hbelow := isBelow_of_field? hfield
    cases hchain.isBelow_of_mem hmem with
    | inl heq => rwa [← heq]
    | inr hdeeper => exact hbelow.trans hdeeper
  · split at hlast
    · rename_i hmoved
      exact hchain.isBelow_of_getLast? hmoved hlast
    · cases hlast
  · split at htype
    · exact isBelow_of_field? htype
    · cases htype
  · obtain ⟨named, hnamed, hfield⟩ := Option.bind_eq_some_iff.mp hinner
    have hbelow := isBelow_of_mem_searched (List.mem_of_find?_eq_some hnamed)
    exact (isBelow_of_field? hfield).trans hbelow
  · exact isBelow_of_mem_searched (List.mem_of_find?_eq_some hidentifier)

/-- The chain of `declarator` fields of a node ends.  The name node is the name of the first node along
    it that has one, else its last node if it leads anywhere, else the type of an `impl_item`, and else
    it is found among the nodes below that are outside of bodies: the name of the first of them that has
    one, or the first that looks like an identifier.  In any case it stands below the node.  A search
    below a node gives the first of the nodes outside of bodies with the property looked for. -/
theorem name_node_of_declaration (node : Node) :
    (∃ chain, (∀ other, DeclaratorChain node other ↔ other = chain) ∧
      node.nameNode? =
        (chain.findSome? fun n => n.field? .name).or
          ((if 1 < chain.length then chain.getLast? else none).or
            ((if node.nodeType = "impl_item" then node.field? .type else none).or
              (((node.searched.find? fun n => (n.field? .name).isSome).bind fun n =>
                  n.field? .name).or
                (node.searched.find? isIdentifier))))) ∧
    (∀ target, node.nameNode? = some target → target.IsBelow node) ∧
    (∀ p, node.firstBelow? p = node.searched.find? p) ∧
    node.searched = node.outsideBodies.map Placed.item := by
  refine ⟨?_, fun target => isBelow_of_nameNode?, fun p => firstBelow?_eq_find? p node,
    searched_eq_map_outsideBodies node⟩
  obtain ⟨chain, hchain⟩ := exists_declaratorChain node
  refine ⟨chain, fun other => ⟨hchain.unique, fun h => h ▸ hchain⟩, ?_⟩
  rw [nameNode?_eq hchain, guessedName?_eq]

/-- A function whose name stands behind two declarators, before statements with names of their own. -/
def pointerFunction : Node :=
  ⟨"function_definition", true, 0, 0, 20, [(.declarator, [0])],
    [⟨"pointer_declarator", true, 0, 4, 9, [(.declarator, [1])],
      [⟨"*", false, 0, 4, 5, [], []⟩,
        ⟨"function_declarator", true, 0, 5, 9, [(.declarator, [0])],
          [⟨"identifier", true, 0, 5, 7, [], []⟩]⟩]⟩,
      ⟨"compound_statement", true, 0, 10, 20, [], [⟨"identifier", true, 0, 12, 15, [], []⟩]⟩]⟩

/-- The name of the function is the end of its chain of declarators. -/
theorem name_node_of_declaration_pointer :
    ∃ name, pointerFunction.nameNode? = some name ∧ name.nodeType = "identifier" ∧ name.start = 5 ∧
      name.IsBelow pointerFunction := by
  obtain ⟨⟨chain, hchain, hname⟩, hbelow, -, -⟩ := name_node_of_declaration pointerFunction
  have hsteps : chain = _ := ((hchain _).mp (.step rfl (.step rfl (.step rfl (.last rfl))))).symm
  rw [hsteps] at hname
  exact ⟨_, hname, rfl, rfl, hbelow _ hname⟩

end CodeOutline.Node
