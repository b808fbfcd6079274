import CodeOutline.Proofs.Outline.Declaration
import CodeOutline.Proofs.Outline.Rows

/-! # Reading an outline back

An outline shows more than it seems: as long as no name has a line feed in it, the forest can be
read off again, up to the lines its symbols stand on and the names of functions and methods, which
cannot be told from a return type behind them.

* `readRow?` reads the depth, the kind and the text behind the label off a line.  It works because
  a label neither begins with a tab nor like a visibility, and has no blank in it.
* `splitOnChar_rows` cuts an outline into its rows.  It works because a declaration line, and so a
  return type taken from it, has no line feed in it.
* `alike_of_skeletons` goes from rows back to forests.  A forest at some depth ends where the next
  row is less deep, so two forests with the same rows end at the same row.
-/

namespace CodeOutline

open Text (Source splitOnChar)
open Text.Pattern (dropFront dropFront_append dropFront_eq_none)

/-! ## Labels -/

namespace Kind

theorem find?_label? {kind : Kind} {label : String} (h : kind.label? = some label) :
    (all.find? fun other => other.label? == some label) = some kind := by
  cases kind <;> cases h <;> decide

/-- A label begins with a capital letter and goes on with letters. -/
theorem label?_letters {kind : Kind} {label : String} (h : kind.label? = some label) :
    ∃ first rest, label.toList = first :: rest ∧ first.isUpper = true ∧
      ∀ c ∈ rest, c.isAlpha = true := by
  cases kind <;> cases h <;> exact ⟨_, _, rfl, rfl, List.all_eq_true.mp rfl⟩

end Kind

namespace Symbol

/-! ## What an outline tells about a forest -/

/-- No symbol of a forest, at any depth, has a line feed in its name. -/
def NamesOnOneLine (symbols : List Symbol) : Prop :=
  ∀ row ∈ preorder 0 symbols, '\n' ∉ row.2.name.toList

instance (symbols : List Symbol) : Decidable (NamesOnOneLine symbols) :=
  inferInstanceAs (Decidable (∀ row ∈ preorder 0 symbols, _))

/-- Two forests of the same shape with the same kinds, and with the same names except for those
    of functions and methods. -/
inductive Alike : List Symbol → List Symbol → Prop where
  | nil : Alike [] []
  | cons {first other : Symbol} {rest others : List Symbol} :
      first.kind = other.kind →
      (first.kind ≠ .function → first.kind ≠ .method → first.name = other.name) →
      Alike first.children other.children → Alike rest others →
      Alike (first :: rest) (other :: others)

/-- A depth, a kind, and a name unless it is that of a function or method. -/
abbrev Skeleton := Nat × Kind × Option String

/-- What an outline tells for sure about a row. -/
def skeleton (row : Nat × Symbol) : Skeleton :=
  (row.1, row.2.kind, if row.2.kind.isCallable then none else some row.2.name)

/-- A list of rows that begins less deep than `depth`, if it begins at all. -/
def StartsAbove (depth : Nat) (rows : List (Nat × Symbol)) : Prop :=
  ∀ row ∈ rows.head?, row.1 < depth

theorem startsAbove_preorder_append {depth : Nat} {rows : List (Nat × Symbol)}
    (h : StartsAbove depth rows) (symbols : List Symbol) :
    StartsAbove (depth + 1) (preorder depth symbols ++ rows) := by
  intro row hrow
  cases symbols with
  | nil => exact Nat.lt_succ_of_lt (h row hrow)
  | cons symbol rest =>
    cases symbol
    obtain rfl : _ = row := by simpa [preorder, preorderTree] using hrow
    exact Nat.lt_succ_self depth

/-- Rows that begin less deep than `depth` do not begin like a forest at that depth. -/
theorem map_skeleton_ne {depth : Nat} {rows others : List (Nat × Symbol)} {symbol : Symbol}
    {rest : List Symbol} (h : StartsAbove depth rows) :
    rows.map skeleton ≠ (preorder depth (symbol :: rest) ++ others).map skeleton := by
  intro heq
  cases symbol
  cases rows with
  | nil => simp [preorder, preorderTree] at heq
  | cons row rows =>
    have hdepth : row.1 < depth := h row rfl
    simp only [preorder, preorderTree, List.cons_append, List.map_cons, List.cons.injEq, skeleton,
      Prod.mk.injEq] at heq
    omega

/-- Forests with the same rows are alike, whatever less deep rows follow, and the same rows
    follow.  The induction is on the shape of the first forest: the rows behind the children of a
    symbol are those of its siblings, which are less deep. -/
theorem alike_of_skeletons : ∀ (symbols others : List Symbol) {depth : Nat}
    {rows otherRows : List (Nat × Symbol)},
    StartsAbove depth rows → StartsAbove depth otherRows →
    (preorder depth symbols ++ rows).map skeleton =
      (preorder depth others ++ otherRows).map skeleton →
    Alike symbols others ∧ rows.map skeleton = otherRows.map skeleton
  | [], [], _, _, _, _, _, h => ⟨.nil, h⟩
  | [], _ :: _, _, _, _, hrows, _, h => absurd h (map_skeleton_ne hrows)
  | _ :: _, [], _, _, _, _, hother, h => absurd h.symm (map_skeleton_ne hother)
  | ⟨name, kind, line, children⟩ :: rest, ⟨name', kind', line', children'⟩ :: rest', depth, rows,
      otherRows, hrows, hother, h => by
    simp only [preorder, preorderTree, List.cons_append, List.append_assoc, List.map_cons,
      List.cons.injEq, skeleton, Prod.mk.injEq, true_and] at h
    obtain ⟨⟨rfl, hname⟩, hbelow⟩ := h
    -- Behind the children come the siblings, which are less deep, and behind these the rest.
    obtain ⟨hchildren, hbehind⟩ := alike_of_skeletons children children'
      (startsAbove_preorder_append hrows rest) (startsAbove_preorder_append hother rest') hbelow
    obtain ⟨hrest, hend⟩ := alike_of_skeletons rest rest' hrows hother hbehind
    refine ⟨.cons rfl ?_ hchildren hrest, hend⟩
    intro hfunction hmethod
    have hcallable : kind.isCallable = false := by
      cases kind <;> first | rfl | exact absurd rfl hfunction | exact absurd rfl hmethod
    simpa [hcallable] using hname

end Symbol

namespace Outline

/-! ## Rows without their line feed -/

/-- The return type behind the name of a function or method. -/
def typeText (declaration : String) (kind : Kind) : String :=
  if kind.isCallable then
    match Declaration.returnType? declaration with
    | some type => ": " ++ type
    | none => ""
  else ""

/-- The text behind the label of a row. -/
def shownName (source : Source) (symbol : Symbol) : List Char :=
  symbol.name.toList ++ (typeText ((source.line? symbol.line).getD "") symbol.kind).toList

/-- The text of a row without its line feed. -/
def rowBody (source : Source) (row : Nat × Symbol) : List Char :=
  List.replicate row.1 '\t' ++
    ((Declaration.visibility ((source.line? row.2.line).getD "")).toList ++
      ((row.2.kind.label?.getD "").toList ++ ' ' :: shownName source row.2))

theorem lineText_eq (depth : Nat) (declaration label name : String) (kind : Kind) :
    lineText depth declaration label name kind =
      String.ofList (List.replicate depth '\t') ++ Declaration.visibility declaration ++ label
        ++ " " ++ name ++ typeText declaration kind ++ "\n" :=
  rfl

theorem toList_rowText (source : Source) (row : Nat × Symbol) :
    (rowText source row).toList = rowBody source row ++ ['\n'] := by
  simp [rowText, lineText_eq, rowBody, shownName]

/-- A row has no line feed in it if the name and the declaration line have none. -/
theorem newline_not_mem_rowBody {source : Source} {row : Nat × Symbol}
    (hline : ∀ line, source.line? row.2.line = some line → '\n' ∉ line.toList)
    (hname : '\n' ∉ row.2.name.toList) (hshow : Showable source row.2) :
    '\n' ∉ rowBody source row := by
  obtain ⟨label, hlabel⟩ := Option.isSome_iff_exists.mp hshow.2
  have htabs : '\n' ∉ List.replicate row.1 '\t' := by simp [List.mem_replicate]
  have hvisibility : '\n' ∉ (Declaration.visibility ((source.line? row.2.line).getD "")).toList := by
    rcases Declaration.visibility_cases ((source.line? row.2.line).getD "") with h | h | h <;>
      rw [h] <;> decide
  have hletters : '\n' ∉ label.toList := by
    obtain ⟨first, rest, heq, hfirst, hrest⟩ := Kind.label?_letters hlabel
    rw [heq, List.mem_cons, not_or]
    exact ⟨fun h => absurd hfirst (h ▸ by decide), fun h => absurd (hrest _ h) (by decide)⟩
  -- A return type has only characters of the declaration line.
  have htype : '\n' ∉ (typeText ((source.line? row.2.line).getD "") row.2.kind).toList := by
    obtain ⟨line, hget⟩ : ∃ line, source.line? row.2.line = some line :=
      ⟨_, List.getElem?_eq_getElem hshow.1⟩
    rw [hget, Option.getD_some]
    unfold typeText
    split
    · split
      · rename_i type htype
        rw [String.toList_append, List.mem_append, not_or]
        exact ⟨by decide, fun h => hline line hget (Declaration.mem_of_mem_returnType htype h)⟩
      · decide
    · decide
  simp [rowBody, shownName, hlabel, htabs, hvisibility, hletters, hname, htype]

/-! ## Reading one row -/

/-- What can be read off a row: how deep it is, its kind, and the text behind the label. -/
structure Reading where
  depth : Nat
  kind : Kind
  shown : List Char
deriving DecidableEq, Repr

/-- The text behind a visibility, if it begins with one. -/
def dropVisibility (text : List Char) : List Char :=
  ((dropFront "private ".toList text).or
    (dropFront "public ".toList text)).getD text

/-- Reads a row without its line feed. -/
def readRow? (row : List Char) : Option Reading :=
  let body := dropVisibility (row.dropWhile (· == '\t'))
  let label := String.ofList (body.takeWhile (· != ' '))
  (Kind.all.find? fun kind => kind.label? == some label).map fun kind =>
    ⟨(row.takeWhile (· == '\t')).length, kind, (body.dropWhile (· != ' ')).drop 1⟩

theorem dropVisibility_visibility (declaration : String) {first : Char} (rest : List Char)
    (hfirst : first.isUpper = true) :
    dropVisibility ((Declaration.visibility declaration).toList ++ first :: rest) =
      first :: rest := by
  have hne : 'p' ≠ first := fun h => absurd hfirst (h ▸ by decide)
  rcases Declaration.visibility_cases declaration with h | h | h
  · rw [h, dropVisibility, dropFront_append]
    rfl
  · rw [h, dropVisibility, dropFront_append]
    rfl
  · -- Without a visibility the text begins with a capital letter, which neither word does.
    have hprivate : dropFront "private ".toList (first :: rest) = none := dropFront_eq_none _ _ hne
    have hpublic : dropFront "public ".toList (first :: rest) = none := dropFront_eq_none _ _ hne
    rw [h]
    change dropVisibility (first :: rest) = first :: rest
    rw [dropVisibility, hprivate, hpublic]
    rfl

/-- The tabs of a row are those of its depth. -/
theorem span_tabs_rowBody {source : Source} {row : Nat × Symbol} (hshow : Showable source row.2) :
    (rowBody source row).takeWhile (· == '\t') = List.replicate row.1 '\t' ∧
      (rowBody source row).dropWhile (· == '\t') =
        (Declaration.visibility ((source.line? row.2.line).getD "")).toList ++
          ((row.2.kind.label?.getD "").toList ++ ' ' :: shownName source row.2) := by
  obtain ⟨label, hlabel⟩ := Option.isSome_iff_exists.mp hshow.2
  obtain ⟨first, rest, heq, hfirst, -⟩ := Kind.label?_letters hlabel
  have hne : first ≠ '\t' := fun h => absurd hfirst (h ▸ by decide)
  have htabs : ∀ c ∈ List.replicate row.1 '\t', (c == '\t') = true := fun c hc =>
    beq_iff_eq.mpr (List.eq_of_mem_replicate hc)
  rw [rowBody, List.takeWhile_append_of_pos htabs, List.dropWhile_append_of_pos htabs, hlabel,
    Option.getD_some, heq]
  -- Behind the tabs there is a visibility or a label, and neither begins with a tab.
  rcases Declaration.visibility_cases ((source.line? row.2.line).getD "") with h | h | h
  · rw [h]
    exact ⟨List.append_nil _, rfl⟩
  · rw [h]
    exact ⟨List.append_nil _, rfl⟩
  · rw [h]
    simp [hne]

/-- Every row that can be shown is read back. -/
theorem readRow?_rowBody {source : Source} {row : Nat × Symbol} (hshow : Showable source row.2) :
    readRow? (rowBody source row) = some ⟨row.1, row.2.kind, shownName source row.2⟩ := by
  obtain ⟨label, hlabel⟩ := Option.isSome_iff_exists.mp hshow.2
  obtain ⟨first, rest, heq, hfirst, hrest⟩ := Kind.label?_letters hlabel
  have hletters : ∀ c ∈ label.toList, (c != ' ') = true := by
    intro c hc
    rw [heq] at hc
    rw [bne_iff_ne]
    rintro rfl
    rcases List.mem_cons.mp hc with rfl | hc
    · exact absurd hfirst (by decide)
    · exact absurd (hrest _ hc) (by decide)
  obtain ⟨htabs, hbody⟩ := span_tabs_rowBody hshow
  have hbody : dropVisibility ((rowBody source row).dropWhile (· == '\t')) =
      label.toList ++ ' ' :: shownName source row.2 := by
    rw [hbody, hlabel, Option.getD_some, heq, List.cons_append, dropVisibility_visibility _ _ hfirst]
  simp only [readRow?, hbody, htabs, List.takeWhile_append_of_pos hletters,
    List.dropWhile_append_of_pos hletters]
  simp [Kind.find?_label? hlabel]

/-! ## Reading all rows -/

theorem newline_not_mem_rows {text : String} {symbols : List Symbol}
    (hnames : Symbol.NamesOnOneLine symbols)
    (hshow : ∀ row ∈ Symbol.preorder 0 symbols, Showable (.ofText text) row.2) :
    ∀ row ∈ Symbol.preorder 0 symbols, '\n' ∉ rowBody (.ofText text) row := fun row hrow =>
  newline_not_mem_rowBody (fun _ => Source.newline_not_mem_line) (hnames row hrow) (hshow row hrow)

/-- An outline is cut into its rows at its line feeds. -/
theorem splitOnChar_rows {text out : String} {symbols : List Symbol}
    (hnames : Symbol.NamesOnOneLine symbols) (h : render (.ofText text) symbols = .ok out) :
    splitOnChar '\n' out.toList =
      (Symbol.preorder 0 symbols).map (rowBody (.ofText text)) ++ [[]] := by
  obtain ⟨hshow, rfl⟩ := render_eq_ok_iff.mp h
  rw [String.toList_join, List.flatMap_map]
  simp only [toList_rowText]
  exact Text.splitOnChar_flatMap (newline_not_mem_rows hnames hshow)

theorem count_newline_render {text out : String} {symbols : List Symbol}
    (hnames : Symbol.NamesOnOneLine symbols) (h : render (.ofText text) symbols = .ok out) :
    out.toList.count '\n' = Symbol.countAll symbols := by
  have hlength := congrArg List.length (splitOnChar_rows hnames h)
  rw [Text.length_splitOnChar, List.length_append, List.length_map, Symbol.length_preorder] at hlength
  simpa using hlength

/-- Reads the rows of an outline.  Behind the last line feed there is nothing to read. -/
def readRows (out : String) : List Reading :=
  (splitOnChar '\n' out.toList).filterMap readRow?

theorem readRows_render {text out : String} {symbols : List Symbol}
    (hnames : Symbol.NamesOnOneLine symbols) (h : render (.ofText text) symbols = .ok out) :
    readRows out = (Symbol.preorder 0 symbols).map fun row =>
      ⟨row.1, row.2.kind, shownName (.ofText text) row.2⟩ := by
  -- Nothing is read off the empty piece behind the last line feed.
  have hnothing : readRow? [] = none := by decide
  have hrows : ((Symbol.preorder 0 symbols).map (rowBody (.ofText text))).map readRow? =
      (Symbol.preorder 0 symbols).map fun row =>
        some ⟨row.1, row.2.kind, shownName (.ofText text) row.2⟩ := by
    rw [List.map_map]
    exact List.map_congr_left fun row hrow =>
      readRow?_rowBody ((render_eq_ok_iff.mp h).1 row hrow)
  rw [readRows, splitOnChar_rows hnames h, List.filterMap_append,
    List.filterMap_cons_none hnothing, List.filterMap_nil, List.append_nil,
    ← Function.id_comp readRow?, ← List.filterMap_map, hrows, List.filterMap_map, Function.id_comp,
    List.filterMap_eq_map']

/-- What is sure about a row from what is read off it. -/
def Reading.skeleton (reading : Reading) : Symbol.Skeleton :=
  (reading.depth, reading.kind,
    if reading.kind.isCallable then none else some (String.ofList reading.shown))

/-- An outline tells what is sure about its rows. -/
theorem skeletons_render {text out : String} {symbols : List Symbol}
    (hnames : Symbol.NamesOnOneLine symbols) (h : render (.ofText text) symbols = .ok out) :
    (Symbol.preorder 0 symbols).map Symbol.skeleton = (readRows out).map Reading.skeleton := by
  rw [readRows_render hnames h, List.map_map]
  refine List.map_congr_left fun row _ => ?_
  simp only [Function.comp_apply, Symbol.skeleton, Reading.skeleton, shownName, typeText]
  cases row.2.kind.isCallable <;> simp

/-! ## The outline determines the forest -/

/-- Two forests with the same outline, each over a text of its own, are alike: they have the same
    shape, the same kinds, and the same names except for those of functions and methods.  The
    outline has one line for each symbol, with a tab for each level the symbol is nested. -/
theorem alike_of_same_outline {symbols others : List Symbol} {text otherText out : String}
    (hnames : Symbol.NamesOnOneLine symbols) (hothers : Symbol.NamesOnOneLine others)
    (h : render (.ofText text) symbols = .ok out)
    (hother : render (.ofText otherText) others = .ok out) :
    Symbol.Alike symbols others ∧
      out.toList.count '\n' = Symbol.countAll symbols ∧
      ∀ (i depth : Nat) (symbol : Symbol),
        (Symbol.preorder 0 symbols)[i]? = some (depth, symbol) →
          ∃ line : List Char, (splitOnChar '\n' out.toList)[i]? = some line ∧
            (line.takeWhile (· == '\t')).length = depth := by
  refine ⟨?_, count_newline_render hnames h, ?_⟩
  · have hsame : (Symbol.preorder 0 symbols).map Symbol.skeleton =
        (Symbol.preorder 0 others).map Symbol.skeleton :=
      (skeletons_render hnames h).trans (skeletons_render hothers hother).symm
    -- No row follows the forests, which is as good as a less deep one.
    have nothing : Symbol.StartsAbove 0 [] := nofun
    exact (Symbol.alike_of_skeletons symbols others nothing nothing (by simpa using hsame)).1
  · intro i depth symbol hrow
    have hshow := (render_eq_ok_iff.mp h).1 _ (List.mem_of_getElem? hrow)
    refine ⟨rowBody (.ofText text) (depth, symbol), ?_, ?_⟩
    · have hi := (List.getElem?_eq_some_iff.mp hrow).1
      rw [splitOnChar_rows hnames h, List.getElem?_append_left (by simpa using hi),
        List.getElem?_map, hrow, Option.map_some]
    · rw [(span_tabs_rowBody hshow).1, List.length_replicate]

/-- The name of a method and a return type behind it cannot be told apart, but all else can. -/
theorem alike_of_same_outline_typed_method :
    render (.ofText "class Shop \x7b\n  buy\n  public till\n")
        [⟨"Shop", .classDecl, 0, [⟨"buy: int", .method, 1, []⟩, ⟨"till", .field, 2, []⟩]⟩] =
        .ok "Class Shop\n\tMethod buy: int\n\tpublic Field till\n" ∧
      render (.ofText "class Shop \x7b\r\n  int buy(Item item)\r\n  public till")
        [⟨"Shop", .classDecl, 0, [⟨"buy", .method, 1, []⟩, ⟨"till", .field, 2, []⟩]⟩] =
        .ok "Class Shop\n\tMethod buy: int\n\tpublic Field till\n" ∧
      Symbol.Alike
        [⟨"Shop", .classDecl, 0, [⟨"buy: int", .method, 1, []⟩, ⟨"till", .field, 2, []⟩]⟩]
        [⟨"Shop", .classDecl, 0, [⟨"buy", .method, 1, []⟩, ⟨"till", .field, 2, []⟩]⟩] ∧
      "Class Shop\n\tMethod buy: int\n\tpublic Field till\n".toList.count '\n' = 3 := by
  rw [← and_assoc, and_iff_left_of_imp]
  · exact ⟨rfl, rfl⟩
  · rintro ⟨h, hother⟩
    obtain ⟨halike, hcount, -⟩ := alike_of_same_outline (by decide) (by decide) h hother
    exact ⟨halike, hcount⟩

end Outline

end CodeOutline
