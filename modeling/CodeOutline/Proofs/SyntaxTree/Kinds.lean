import CodeOutline.Proofs.SyntaxTree.Walk

/-! # The kinds of symbols

The walk hands the kind of a symbol down to the symbols inside it, after it has changed a function to a
method, a type to an interface or a method to a constructor.  So a kind seems to depend on all the
declarations around its own.  It does not: no such change makes a container of a kind or stops it from
being one (`isContainer_reportedKind`), and that is all that is asked of the kind that is handed down.

`localKind` is the kind as it is decided by a declaration itself and by the kind that the rules give to
the nearest declaration around it.
-/

namespace CodeOutline

namespace Placed

variable {α : Type}

instance (list : List (Placed α)) (a b : Placed α) : Decidable (IsNearest list a b) :=
  inferInstanceAs (Decidable (_ ∧ _))

/-- The nearest of the listed things that encloses `b`. -/
def nearest? (list : List (Placed α)) (b : Placed α) : Option (Placed α) :=
  list.find? fun a => IsNearest list a b

theorem nearest?_eq_none {list : List (Placed α)} {b : Placed α}
    (h : ∀ a ∈ list, ¬ a.Encloses b) : nearest? list b = none := by
  rw [nearest?, List.find?_eq_none]
  intro a ha
  simpa using fun hnearest : IsNearest list a b => h a ha hnearest.1

/-- Where no two things stand at the same place, the nearest is found. -/
theorem nearest?_eq_some_iff {list : List (Placed α)} {a b : Placed α}
    (hplaces : ∀ x ∈ list, ∀ y ∈ list, x.way = y.way → x = y) :
    nearest? list b = some a ↔ a ∈ list ∧ IsNearest list a b := by
  constructor
  · intro hfound
    exact ⟨List.mem_of_find?_eq_some hfound, by simpa using List.find?_some hfound⟩
  · rintro ⟨ha, hnearest⟩
    cases hfound : nearest? list b with
    | none =>
      rw [nearest?, List.find?_eq_none] at hfound
      exact absurd (decide_eq_true hnearest) (hfound a ha)
    | some other =>
      have hother : other ∈ list := List.mem_of_find?_eq_some hfound
      have hnearest' : IsNearest list other b := by simpa using List.find?_some hfound
      -- Neither of the two is nearer than the other.
      have hle : other.way <+: a.way := hnearest.2 other hother hnearest'.1
      have hge : a.way <+: other.way := hnearest'.2 a ha hnearest.1
      rw [hplaces other hother a ha (hle.eq_of_length_le hge.length_le)]

end Placed

/-! ## Kinds without the walk -/

/-- The kinds of declarations that make a function directly inside them a method. -/
def Kind.containers : List Kind :=
  [classDecl, struct, interface, enum, object]

theorem Kind.isContainer_eq_contains : isContainer = containers.contains := by
  funext kind
  cases kind <;> rfl

/-- The kind of a declaration.  It depends on the kind `own` that the rules give to it, on whether it
    specifies an interface type, on whether it defines a method named `constructor`, and on the kind
    `around` that the rules give to the nearest declaration around it. -/
def localKind (own : Kind) (forInterface forConstructor : Bool) (around : Option Kind) : Kind :=
  if own = .function ∧ around.any Kind.containers.contains then .method
  else if own = .struct ∧ forInterface then .interface
  else if own = .method ∧ forConstructor then .constructor
  else own

theorem localKind_function (forInterface forConstructor : Bool) (around : Option Kind) :
    localKind .function forInterface forConstructor around =
      if around.any Kind.containers.contains then .method else .function := by
  simp only [localKind, true_and, reduceCtorEq, false_and, if_false]

namespace Node

/-- The kind that the rules of a language give to a node. -/
def ruleKind? (language : Language) (node : Node) : Option Kind :=
  (language.rule? node.nodeType).map NodeRule.kind

/-- Whether a node defines a method that goes by the name `constructor`. -/
def definesConstructor (text : List Char) (node : Node) : Bool :=
  node.nodeType == "method_definition" && (node.nameAndRow text).1 == "constructor".toList

/-! ## One declaration -/

/-- No change of a kind makes a container of it or stops it from being one. -/
theorem isContainer_reportedKind (node : Node) (own : Kind) (parent : Option Kind)
    (name : List Char) :
    (node.reportedKind own parent name).isContainer = own.isContainer := by
  unfold reportedKind
  split
  · split <;> rfl
  · split <;> rfl
  · split <;> rfl
  · rfl

/-- The kind that is handed down counts only as that of a container. -/
theorem reportedKind_eq_localKind (text : List Char) (node : Node) (own : Kind)
    {parent around : Option Kind} (h : parent.any Kind.isContainer = around.any Kind.isContainer) :
    node.reportedKind own parent (node.nameAndRow text).1 =
      localKind own node.specifiesInterface (node.definesConstructor text) around := by
  rw [localKind, ← Kind.isContainer_eq_contains, ← h]
  unfold reportedKind
  split
  · simp only [true_and, reduceCtorEq, false_and, if_false]
  · simp only [true_and, reduceCtorEq, false_and, if_false]
  · simp only [true_and, reduceCtorEq, false_and, if_false, definesConstructor]
  · rename_i hfunction hstruct hmethod
    rw [if_neg fun h => hfunction h.1, if_neg fun h => hstruct h.1, if_neg fun h => hmethod h.1]

theorem ruleKind?_of_symbol? {language : Language} {text : List Char} {parent : Option Kind}
    {node : Node} {symbol : Symbol} (h : node.symbol? language text parent = some symbol) :
    ∃ own, node.ruleKind? language = some own ∧
      symbol.kind = node.reportedKind own parent (node.nameAndRow text).1 := by
  obtain ⟨rule, hrule, rfl⟩ := Option.map_eq_some_iff.mp h
  refine ⟨rule.kind, ?_, rfl⟩
  rw [ruleKind?, (Option.filter_eq_some_iff.mp hrule).1, Option.map_some]

/-! ## All declarations -/

/-- No two declarations of a tree stand at the same place. -/
theorem eq_of_mem_declarations {language : Language} {root : Node} {d e : Placed Node}
    (hd : d ∈ root.declarations language) (he : e ∈ root.declarations language)
    (h : d.way = e.way) : d = e := by
  have hitem : some d.item = some e.item := by
    rw [← follow?_of_mem_declarations hd, ← follow?_of_mem_declarations he, h]
  obtain ⟨way, item⟩ := d
  obtain ⟨way', item'⟩ := e
  cases h
  cases hitem
  rfl

theorem nearest?_declarations_eq_some_iff {language : Language} {root : Node} {around d : Placed Node} :
    Placed.nearest? (root.declarations language) d = some around ↔
      around ∈ root.declarations language ∧
        Placed.IsNearest (root.declarations language) around d :=
  Placed.nearest?_eq_some_iff fun _ hx _ hy => eq_of_mem_declarations hx hy

/-- What the kind of a symbol owes to the symbol around it, told by the nearest declaration around its
    own. -/
theorem any_isContainer_nearest? {language : Language} {text : String} {root : Node}
    {pair : Placed Symbol × Placed Node}
    (hpair : pair ∈ (Symbol.placed (root.symbols language text)).zip (root.declarations language)) :
    ∃ parent : Option Kind,
      pair.2.item.symbol? language text.toList parent = some { pair.1.item with children := [] } ∧
      parent.any Kind.isContainer =
        ((Placed.nearest? (root.declarations language) pair.2).bind fun around =>
          around.item.ruleKind? language).any Kind.isContainer := by
  have hfollows := follows_declarations language text root
  obtain ⟨parent, hsymbol, ⟨⟨i, hway⟩, rfl⟩ | ⟨outer, houter, hparent, rfl⟩⟩ :=
    hfollows.symbol_eq pair hpair
  · -- At the top no declaration encloses this one.
    have hcount : (root.declarations language).countP (fun e => e.Encloses pair.2) = 0 := by
      rw [← hfollows.countP_encloses hpair, Symbol.countP_encloses_placed (List.of_mem_zip hpair).1]
      simp [Placed.depth, hway]
    refine ⟨none, hsymbol, ?_⟩
    rw [Placed.nearest?_eq_none]
    · rfl
    · intro e he hencloses
      exact List.countP_eq_zero.mp hcount e he (decide_eq_true hencloses)
  · -- The symbol around this one has a declaration, which is the nearest around this one.
    obtain ⟨e, he⟩ := hfollows.exists_declaration houter
    have hnearest : Placed.IsNearest (root.declarations language) e pair.2 :=
      (hfollows.isParent_iff_isNearest (fun p hp => Symbol.within_of_mem_placedFrom hp) he hpair).mp
        hparent
    obtain ⟨above, habove, -⟩ := hfollows.symbol_eq _ he
    obtain ⟨own, hown, hkind⟩ := ruleKind?_of_symbol? habove
    refine ⟨_, hsymbol, ?_⟩
    rw [nearest?_declarations_eq_some_iff.mpr ⟨(List.of_mem_zip he).2, hnearest⟩]
    simp only [Option.bind_some, hown, Option.any_some]
    exact (congrArg Kind.isContainer hkind).trans (isContainer_reportedKind _ _ _ _)

theorem any_isContainer_nearest?_iff {language : Language} {root : Node} {d : Placed Node} :
    ((Placed.nearest? (root.declarations language) d).bind fun around =>
        around.item.ruleKind? language).any Kind.isContainer = true ↔
      ∃ around ∈ root.declarations language,
        Placed.IsNearest (root.declarations language) around d ∧
          ∃ kind ∈ Kind.containers, around.item.ruleKind? language = some kind := by
  simp only [Kind.isContainer_eq_contains, Option.any_eq_true, Option.bind_eq_some_iff,
    nearest?_declarations_eq_some_iff, List.contains_iff_mem]
  constructor
  · rintro ⟨kind, ⟨around, ⟨hmem, hnearest⟩, hrule⟩, hkind⟩
    exact ⟨around, hmem, hnearest, kind, hkind, hrule⟩
  · rintro ⟨around, hmem, hnearest, kind, hkind, hrule⟩
    exact ⟨kind, ⟨around, ⟨hmem, hnearest⟩, hrule⟩, hkind⟩

/-- Each declaration has its symbol, and the kind of that is decided by the declaration and by the kind
    that the rules give to the nearest declaration around it, whatever the walk has made of that one and
    of those further up.  So a function is reported as a method exactly if the rules give the kind of a
    container to the nearest declaration around it, and as a function otherwise. -/
theorem kinds_decided_locally (language : Language) (text : String) (root : Node) :
    let placed := Symbol.placed (root.symbols language text)
    let declared := root.declarations language
    placed.length = declared.length ∧
    ∀ pair ∈ placed.zip declared, ∃ (own : Kind) (parent : Option Kind),
      pair.2.item.symbol? language text.toList parent = some { pair.1.item with children := [] } ∧
      pair.2.item.ruleKind? language = some own ∧
      pair.1.item.kind =
        localKind own pair.2.item.specifiesInterface (pair.2.item.definesConstructor text.toList)
          ((Placed.nearest? declared pair.2).bind fun around => around.item.ruleKind? language) ∧
      (own = .function →
        (pair.1.item.kind = .method ↔
          ∃ around ∈ declared, Placed.IsNearest declared around pair.2 ∧
            ∃ kind ∈ [Kind.classDecl, .struct, .interface, .enum, .object],
              around.item.ruleKind? language = some kind) ∧
        (pair.1.item.kind ≠ .method → pair.1.item.kind = .function)) := by
  intro placed declared
  refine ⟨(follows_declarations language text root).length_eq, fun pair hpair => ?_⟩
  obtain ⟨parent, hsymbol, hparent⟩ := any_isContainer_nearest? hpair
  obtain ⟨own, hown, hreported⟩ := ruleKind?_of_symbol? hsymbol
  have hkind := hreported.trans (reportedKind_eq_localKind text.toList pair.2.item own hparent)
  refine ⟨own, parent, hsymbol, hown, hkind, ?_⟩
  rintro rfl
  rw [hkind, localKind_function, ← Kind.isContainer_eq_contains]
  constructor
  · rw [← Kind.containers, ← any_isContainer_nearest?_iff]
    split
    · rename_i hcontainer
      exact iff_of_true rfl hcontainer
    · rename_i hcontainer
      exact iff_of_false nofun hcontainer
  · intro hne
    exact if_neg fun hcontainer => hne (if_pos hcontainer)

/-- A function inside of a method. -/
def nestedText : String :=
  "class A:\n  def f():\n    def g(): pass\n"

/-- The tree of `nestedText`. -/
def nestedTree : Node :=
  ⟨"module", true, 0, 0, 38, [],
    [⟨"class_definition", true, 0, 0, 37, [(.name, [0]), (.body, [1])],
      [⟨"identifier", true, 0, 6, 7, [], []⟩,
        ⟨"block", true, 1, 11, 37, [],
          [⟨"function_definition", true, 1, 11, 37, [(.name, [0]), (.body, [1])],
            [⟨"identifier", true, 1, 15, 16, [], []⟩,
              ⟨"block", true, 2, 24, 37, [],
                [⟨"function_definition", true, 2, 24, 37, [(.name, [0])],
                  [⟨"identifier", true, 2, 28, 29, [], []⟩]⟩]⟩]⟩]⟩]⟩]⟩

/-- A function in a class is a method, and a function in that one is not. -/
theorem kinds_decided_locally_nested :
    let placed := Symbol.placed (nestedTree.symbols .python nestedText)
    let declared := nestedTree.declarations .python
    ∃ method ∈ placed.zip declared, ∃ inner ∈ placed.zip declared,
      method.2.item.ruleKind? .python = some .function ∧
      inner.2.item.ruleKind? .python = some .function ∧
      Placed.IsNearest declared method.2 inner.2 ∧
      (method.1.item.kind = .method ∧
        ∃ around ∈ declared, Placed.IsNearest declared around method.2 ∧
          ∃ kind ∈ [Kind.classDecl, .struct, .interface, .enum, .object],
            around.item.ruleKind? .python = some kind) ∧
      inner.1.item.kind = .function := by
  intro placed declared
  obtain ⟨-, hpairs⟩ := kinds_decided_locally .python nestedText nestedTree
  have hmethod : (placed.zip declared)[1]? = some _ := rfl
  have hinner : (placed.zip declared)[2]? = some _ := rfl
  obtain ⟨own, -, -, hown, -, hfunction⟩ := hpairs _ (List.mem_of_getElem? hmethod)
  cases hown
  obtain ⟨own', -, -, hown', -, hfunction'⟩ := hpairs _ (List.mem_of_getElem? hinner)
  cases hown'
  exact ⟨_, List.mem_of_getElem? hmethod, _, List.mem_of_getElem? hinner, rfl, rfl, by decide,
    ⟨rfl, (hfunction rfl).1.mp rfl⟩, (hfunction' rfl).2 (by decide)⟩

end Node

end CodeOutline
