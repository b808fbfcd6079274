import CodeOutline.SyntaxTree.Symbols

/-! # Places in trees

What stands in a tree or a forest is told apart by its way: the indices of the children that lead
to it from the top.  One thing encloses another exactly if the way to it is a proper beginning of
the way to the other.

`Symbol.placed` lists the symbols of a forest with their ways, and `Node.declarations` the
declaring nodes of a syntax tree with theirs, both in pre-order.  Things that are listed from
different children of a node are apart: neither way is a beginning of the other
(`Placed.apart_of_within`).
-/

namespace CodeOutline

/-- Something in a tree, with the child indices that lead to it from the top. -/
structure Placed (α : Type) where
  way : List Nat
  item : α

namespace Placed

variable {α β : Type}

/-- How many things something stands inside of; what stands at the top is inside of none. -/
def depth (placed : Placed α) : Nat :=
  placed.way.length - 1

/-- `a` encloses `b`. -/
def Encloses (a b : Placed α) : Prop :=
  a.way <+: b.way ∧ a.way ≠ b.way

instance (a b : Placed α) : Decidable (a.Encloses b) :=
  inferInstanceAs (Decidable (_ ∧ _))

theorem encloses_iff {a b : Placed α} : a.Encloses b ↔ a.way <+: b.way ∧ ¬ b.way <+: a.way := by
  refine and_congr_right fun h => not_congr ⟨fun heq => heq ▸ List.prefix_rfl, fun hback => ?_⟩
  exact h.eq_of_length (Nat.le_antisymm h.length_le hback.length_le)

/-- Of the listed things, `a` is the nearest that encloses `b`. -/
def IsNearest (list : List (Placed α)) (a b : Placed α) : Prop :=
  a.Encloses b ∧ ∀ other ∈ list, other.Encloses b → other.way <+: a.way

/-- `b` stands directly below `a`. -/
def IsParent (a b : Placed α) : Prop :=
  ∃ i, b.way = a.way ++ [i]

theorem IsParent.encloses {a b : Placed α} (h : a.IsParent b) : a.Encloses b := by
  obtain ⟨i, hway⟩ := h
  refine ⟨hway ▸ List.prefix_append a.way [i], fun heq => ?_⟩
  have hlength := congrArg List.length (heq.trans hway)
  simp at hlength

/-- What encloses something encloses or is its parent. -/
theorem IsParent.way_isPrefix {a b c : Placed α} (h : a.IsParent b) (hc : c.Encloses b) :
    c.way <+: a.way := by
  obtain ⟨i, hway⟩ := h
  rcases List.prefix_concat_iff.mp (hway ▸ hc.1) with heq | hle
  · exact absurd (heq.trans hway.symm) hc.2
  · exact hle

/-! ## What stands below a place -/

/-- Something stands below the place `above`, reached through a child from `low` up to but not
    including `high`. -/
def Within (above : List Nat) (low high : Nat) (placed : Placed α) : Prop :=
  ∃ i rest, placed.way = above ++ i :: rest ∧ low ≤ i ∧ i < high

theorem Within.mono {above : List Nat} {low high low' high' : Nat} {placed : Placed α}
    (h : placed.Within above low high) (hlow : low' ≤ low) (hhigh : high ≤ high') :
    placed.Within above low' high' := by
  obtain ⟨i, rest, hway, hi, hi'⟩ := h
  exact ⟨i, rest, hway, by omega, by omega⟩

/-- What stands below a child of a place stands below the place. -/
theorem Within.up {above : List Nat} {i low high : Nat} {placed : Placed α}
    (h : placed.Within (above ++ [i]) low high) : placed.Within above i (i + 1) := by
  obtain ⟨j, rest, hway, _⟩ := h
  exact ⟨i, j :: rest, by rw [hway, List.append_assoc, List.singleton_append], by omega, by omega⟩

theorem Within.way_isPrefix {above : List Nat} {low high : Nat} {placed : Placed α}
    (h : placed.Within above low high) : above <+: placed.way := by
  obtain ⟨i, rest, hway, _⟩ := h
  exact hway ▸ List.prefix_append above (i :: rest)

theorem Within.length_lt {above : List Nat} {low high : Nat} {placed : Placed α}
    (h : placed.Within above low high) : above.length < placed.way.length := by
  obtain ⟨i, rest, hway, _⟩ := h
  simp [hway]

theorem Within.not_way_isPrefix {above : List Nat} {low high : Nat} {placed : Placed α}
    (h : placed.Within above low high) : ¬ placed.way <+: above := fun hle =>
  absurd hle.length_le (Nat.not_le.mpr h.length_lt)

/-- Neither of two things encloses the other or stands at its place. -/
def Apart (a : Placed α) (b : Placed β) : Prop :=
  ¬ a.way <+: b.way ∧ ¬ b.way <+: a.way

/-- Things below different children of a place are apart. -/
theorem apart_of_within {above : List Nat} {low middle high : Nat} {a : Placed α} {b : Placed β}
    (ha : a.Within above low middle) (hb : b.Within above middle high) : a.Apart b := by
  obtain ⟨i, rest, hway, _, hi⟩ := ha
  obtain ⟨j, rest', hway', hj, _⟩ := hb
  rw [Apart, hway, hway', List.prefix_append_right_inj, List.prefix_append_right_inj,
    List.cons_prefix_cons, List.cons_prefix_cons]
  omega

end Placed

/-! ## Symbols with their places -/

namespace Symbol

mutual

/-- The symbols of a tree at a place, the root first. -/
def placedTree (way : List Nat) : Symbol → List (Placed Symbol)
  | ⟨name, kind, line, children⟩ =>
    ⟨way, ⟨name, kind, line, children⟩⟩ :: placedFrom way 0 children

/-- The symbols of a forest below a place, where the first tree is the child number `i`. -/
def placedFrom (above : List Nat) (i : Nat) : List Symbol → List (Placed Symbol)
  | [] => []
  | symbol :: rest => placedTree (above ++ [i]) symbol ++ placedFrom above (i + 1) rest

end

/-- The symbols of a forest with their places, in pre-order. -/
def placed (symbols : List Symbol) : List (Placed Symbol) :=
  placedFrom [] 0 symbols

/-- The symbol a way leads to; the empty way leads nowhere. -/
def follow? : List Symbol → List Nat → Option Symbol
  | _, [] => none
  | symbols, [i] => symbols[i]?
  | symbols, i :: way => (symbols[i]?).bind fun symbol => follow? symbol.children way

theorem placedTree_eq (way : List Nat) (symbol : Symbol) :
    placedTree way symbol = ⟨way, symbol⟩ :: placedFrom way 0 symbol.children := by
  cases symbol
  rfl

theorem placedFrom_append (above : List Nat) (i : Nat) (symbols others : List Symbol) :
    placedFrom above i (symbols ++ others) =
      placedFrom above i symbols ++ placedFrom above (i + symbols.length) others := by
  induction symbols generalizing i with
  | nil => rfl
  | cons symbol rest ih =>
    rw [List.cons_append, placedFrom, placedFrom, ih, List.append_assoc, List.length_cons,
      Nat.add_assoc, Nat.add_comm 1]

mutual

theorem within_of_mem_placedTree {above : List Nat} {i : Nat} {p : Placed Symbol} :
    ∀ {symbol : Symbol}, p ∈ placedTree (above ++ [i]) symbol → p.Within above i (i + 1)
  | ⟨_, _, _, children⟩, h => by
    rcases List.mem_cons.mp h with rfl | hbelow
    · exact ⟨i, [], rfl, by omega, by omega⟩
    · exact (within_of_mem_placedFrom hbelow).up

theorem within_of_mem_placedFrom {above : List Nat} {i : Nat} {p : Placed Symbol} :
    ∀ {symbols : List Symbol}, p ∈ placedFrom above i symbols →
      p.Within above i (i + symbols.length)
  | symbol :: rest, h => by
    rcases List.mem_append.mp h with hfirst | hrest
    · exact (within_of_mem_placedTree hfirst).mono (by omega) (by simp)
    · exact (within_of_mem_placedFrom hrest).mono (by omega) (by simp; omega)

end

mutual

theorem follow?_of_mem_placedTree {way : List Nat} {p : Placed Symbol} :
    ∀ {symbol : Symbol}, p ∈ placedTree way symbol →
      p = ⟨way, symbol⟩ ∨
        ∃ i rest, p.way = way ++ i :: rest ∧ follow? symbol.children (i :: rest) = some p.item
  | ⟨_, _, _, children⟩, h => by
    rcases List.mem_cons.mp h with heq | hbelow
    · exact .inl heq
    · obtain ⟨i, rest, hway, hfollow⟩ := follow?_of_mem_placedFrom hbelow
      exact .inr ⟨i, rest, by rw [hway, Nat.zero_add], hfollow⟩

theorem follow?_of_mem_placedFrom {above : List Nat} {i : Nat} {p : Placed Symbol} :
    ∀ {symbols : List Symbol}, p ∈ placedFrom above i symbols →
      ∃ j rest, p.way = above ++ (i + j) :: rest ∧ follow? symbols (j :: rest) = some p.item
  | symbol :: others, h => by
    rcases List.mem_append.mp h with hfirst | hothers
    · rcases follow?_of_mem_placedTree hfirst with rfl | ⟨j, rest, hway, hfollow⟩
      · exact ⟨0, [], rfl, rfl⟩
      · exact ⟨0, j :: rest, by rw [hway, List.append_assoc, List.singleton_append, Nat.add_zero],
          hfollow⟩
    · obtain ⟨j, rest, hway, hfollow⟩ := follow?_of_mem_placedFrom hothers
      refine ⟨j + 1, rest, by rw [hway, Nat.add_assoc, Nat.add_comm 1], ?_⟩
      cases rest <;> exact hfollow

end

/-- The way to a symbol leads to it. -/
theorem follow?_of_mem_placed {symbols : List Symbol} {p : Placed Symbol}
    (h : p ∈ placed symbols) : follow? symbols p.way = some p.item := by
  obtain ⟨j, rest, hway, hfollow⟩ := follow?_of_mem_placedFrom h
  rw [hway, List.nil_append, Nat.zero_add, hfollow]

mutual

theorem preorderTree_eq_map_placedTree (above : List Nat) (i : Nat) : ∀ symbol : Symbol,
    preorderTree above.length symbol =
      (placedTree (above ++ [i]) symbol).map fun p => (p.depth, p.item)
  | ⟨_, _, _, children⟩ => by
    have hchildren := preorder_eq_map_placedFrom (above ++ [i]) 0 children
    rw [List.length_append, List.length_singleton] at hchildren
    rw [preorderTree, placedTree, List.map_cons, hchildren]
    simp [Placed.depth]

/-- The pre-order list of a forest is its list of places, with depths in the place of ways. -/
theorem preorder_eq_map_placedFrom (above : List Nat) (i : Nat) : ∀ symbols : List Symbol,
    preorder above.length symbols = (placedFrom above i symbols).map fun p => (p.depth, p.item)
  | [] => rfl
  | symbol :: rest => by
    rw [preorder, placedFrom, List.map_append, preorderTree_eq_map_placedTree above i symbol,
      preorder_eq_map_placedFrom above (i + 1) rest]

end

theorem preorder_eq_map_placed (symbols : List Symbol) :
    preorder 0 symbols = (placed symbols).map fun p => (p.depth, p.item) :=
  preorder_eq_map_placedFrom [] 0 symbols

/-! ## Depth and parent in a forest -/

mutual

theorem countP_encloses_placedTree {above : List Nat} {i : Nat} {p : Placed Symbol} :
    ∀ {symbol : Symbol}, p ∈ placedTree (above ++ [i]) symbol →
      (placedTree (above ++ [i]) symbol).countP (fun q => q.Encloses p) =
        p.way.length - (above.length + 1)
  | ⟨name, kind, line, children⟩, h => by
    rw [placedTree] at h ⊢
    rw [List.countP_cons]
    rcases List.mem_cons.mp h with rfl | hbelow
    · -- Nothing in the tree encloses its root.
      have hnone : (placedFrom (above ++ [i]) 0 children).countP (fun q =>
          q.Encloses ⟨above ++ [i], ⟨name, kind, line, children⟩⟩) = 0 := by
        refine List.countP_eq_zero.mpr fun q hq => ?_
        rw [decide_eq_true_iff]
        exact fun hencloses => (within_of_mem_placedFrom hq).not_way_isPrefix hencloses.1
      rw [hnone]
      simp [Placed.Encloses]
    · -- The root encloses what is below it, and the rest is counted there.
      have hwithin := within_of_mem_placedFrom hbelow
      have hroot : Placed.Encloses ⟨above ++ [i], ⟨name, kind, line, children⟩⟩ p :=
        Placed.encloses_iff.mpr ⟨hwithin.way_isPrefix, hwithin.not_way_isPrefix⟩
      have hlength := hwithin.length_lt
      rw [countP_encloses_placedFrom hbelow]
      simp only [hroot, decide_true, if_true, List.length_append, List.length_singleton] at hlength ⊢
      omega

/-- A symbol of a forest is enclosed by as many symbols as its way has steps before the last. -/
theorem countP_encloses_placedFrom {above : List Nat} {i : Nat} {p : Placed Symbol} :
    ∀ {symbols : List Symbol}, p ∈ placedFrom above i symbols →
      (placedFrom above i symbols).countP (fun q => q.Encloses p) =
        p.way.length - (above.length + 1)
  | symbol :: rest, h => by
    rw [placedFrom] at h ⊢
    rw [List.countP_append]
    rcases List.mem_append.mp h with hfirst | hrest
    · have hnone : (placedFrom above (i + 1) rest).countP (fun q => q.Encloses p) = 0 := by
        refine List.countP_eq_zero.mpr fun q hq => ?_
        rw [decide_eq_true_iff]
        exact fun hencloses => (Placed.apart_of_within (within_of_mem_placedTree hfirst)
          (within_of_mem_placedFrom hq)).2 hencloses.1
      rw [hnone, countP_encloses_placedTree hfirst, Nat.add_zero]
    · have hnone : (placedTree (above ++ [i]) symbol).countP (fun q => q.Encloses p) = 0 := by
        refine List.countP_eq_zero.mpr fun q hq => ?_
        rw [decide_eq_true_iff]
        exact fun hencloses => (Placed.apart_of_within (within_of_mem_placedTree hq)
          (within_of_mem_placedFrom hrest)).1 hencloses.1
      rw [hnone, countP_encloses_placedFrom hrest, Nat.zero_add]

end

theorem countP_encloses_placed {symbols : List Symbol} {p : Placed Symbol} (h : p ∈ placed symbols) :
    (placed symbols).countP (fun q => q.Encloses p) = p.depth :=
  countP_encloses_placedFrom h

end Symbol

/-! ## Declarations with their places -/

namespace Node

mutual

/-- A named node at a place and the named nodes below it that are reached through named nodes. -/
def namedTree (way : List Nat) : Node → List (Placed Node)
  | ⟨nodeType, named, row, start, stop, fields, children⟩ =>
    if named then
      ⟨way, ⟨nodeType, named, row, start, stop, fields, children⟩⟩ :: namedFrom way 0 children
    else []

/-- The named nodes among siblings and below them, where the first is the child number `i`. -/
def namedFrom (above : List Nat) (i : Nat) : List Node → List (Placed Node)
  | [] => []
  | node :: rest => namedTree (above ++ [i]) node ++ namedFrom above (i + 1) rest

end

/-- Whether nodes of a node's type declare something, with a body or without one as the type
    demands. -/
def declares (language : Language) (node : Node) : Bool :=
  (language.rule? node.nodeType).any fun rule => !rule.needsBody || (node.field? .body).isSome

/-- The declarations below the root of a tree with their places, in pre-order. -/
def declarations (language : Language) (root : Node) : List (Placed Node) :=
  (namedFrom [] 0 root.children).filter fun p => p.item.declares language

mutual

theorem within_of_mem_namedTree {above : List Nat} {i : Nat} {p : Placed Node} :
    ∀ {node : Node}, p ∈ namedTree (above ++ [i]) node → p.Within above i (i + 1)
  | ⟨_, named, _, _, _, _, children⟩, h => by
    rw [namedTree] at h
    split at h
    · rcases List.mem_cons.mp h with rfl | hbelow
      · exact ⟨i, [], rfl, by omega, by omega⟩
      · exact (within_of_mem_namedFrom hbelow).up
    · cases h

theorem within_of_mem_namedFrom {above : List Nat} {i : Nat} {p : Placed Node} :
    ∀ {nodes : List Node}, p ∈ namedFrom above i nodes → p.Within above i (i + nodes.length)
  | node :: rest, h => by
    rcases List.mem_append.mp h with hfirst | hrest
    · exact (within_of_mem_namedTree hfirst).mono (by omega) (by simp)
    · exact (within_of_mem_namedFrom hrest).mono (by omega) (by simp; omega)

end

/-- A way of more than one step starts with the child its first step leads to. -/
theorem follow?_cons_cons (node : Node) (i j : Nat) (way : List Nat) :
    node.follow? (i :: j :: way) = (node.children[i]?).bind fun child => child.follow? (j :: way) :=
  rfl

mutual

theorem follow?_of_mem_namedTree {way : List Nat} {p : Placed Node} :
    ∀ {node : Node}, p ∈ namedTree way node →
      p = ⟨way, node⟩ ∨
        ∃ i rest, p.way = way ++ i :: rest ∧ node.follow? (i :: rest) = some p.item
  | ⟨_, named, _, _, _, _, children⟩, h => by
    rw [namedTree] at h
    split at h
    · rcases List.mem_cons.mp h with heq | hbelow
      · exact .inl heq
      · obtain ⟨i, rest, hway, hfollow⟩ := follow?_of_mem_namedFrom hbelow
        exact .inr ⟨i, rest, by rw [hway, Nat.zero_add], hfollow _ rfl⟩
    · cases h

theorem follow?_of_mem_namedFrom {above : List Nat} {i : Nat} {p : Placed Node} :
    ∀ {nodes : List Node}, p ∈ namedFrom above i nodes →
      ∃ j rest, p.way = above ++ (i + j) :: rest ∧
        ∀ node : Node, node.children = nodes → node.follow? (j :: rest) = some p.item
  | first :: others, h => by
    rcases List.mem_append.mp h with hfirst | hothers
    · rcases follow?_of_mem_namedTree hfirst with rfl | ⟨j, rest, hway, hfollow⟩
      · exact ⟨0, [], rfl, fun node hnode => by rw [follow?, hnode]; rfl⟩
      · refine ⟨0, j :: rest, ?_, fun node hnode => ?_⟩
        · rw [hway, List.append_assoc, List.singleton_append, Nat.add_zero]
        · rw [follow?_cons_cons, hnode]
          exact hfollow
    · obtain ⟨j, rest, hway, hfollow⟩ := follow?_of_mem_namedFrom hothers
      refine ⟨j + 1, rest, by rw [hway, Nat.add_assoc, Nat.add_comm 1], fun node hnode => ?_⟩
      have hshift := hfollow { node with children := others } rfl
      cases rest with
      | nil => rwa [follow?, hnode, List.getElem?_cons_succ]
      | cons k rest => rwa [follow?_cons_cons, hnode, List.getElem?_cons_succ]

end

/-- The way to a declaration leads to it. -/
theorem follow?_of_mem_declarations {language : Language} {root : Node} {d : Placed Node}
    (h : d ∈ root.declarations language) : root.follow? d.way = some d.item := by
  obtain ⟨j, rest, hway, hfollow⟩ := follow?_of_mem_namedFrom (List.mem_filter.mp h).1
  rw [hway, List.nil_append, Nat.zero_add, hfollow root rfl]

end Node

end CodeOutline
