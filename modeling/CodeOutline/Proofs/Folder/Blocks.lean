import CodeOutline.Folder.Basic
import CodeOutline.Proofs.Folder.FanOut
import CodeOutline.Proofs.SyntaxTree.Shown

/-! # The blocks of a folder

Which files a folder outline has blocks for, and when the blocks can be rendered.  A file is fetched
exactly if it is not too large, can be read and has symbols (`fetch_eq_some_iff`), and the fetched
files are those of the list, in its order (`collect_eq_filterMap`).

With grammars that count rows, every file that is fetched has an outline.  So a folder outline never
fails.
-/

namespace CodeOutline

/-- Grammars whose trees have the number of line feeds before each node for its row. -/
def CountRows (grammars : Grammars) : Prop :=
  ∀ (language : Language) (text : String), language ≠ .unknown →
    (grammars language text).RowsCounted text

namespace Provider

theorem extract_eq_ok {grammars : Grammars} {language : Language} (text : String)
    (h : language ≠ .unknown) :
    extract grammars language text = .ok ((grammars language text).symbols language text) :=
  if_neg h

theorem ofGrammars_eq_ok_some_iff {grammars : Grammars} {path text : String}
    {symbols : List Symbol} :
    ofGrammars grammars path text = .ok (some symbols) ↔
      Language.ofPath path ≠ .unknown ∧
        extract grammars (Language.ofPath path) text = .ok symbols := by
  unfold ofGrammars
  split
  · rename_i hunknown
    simp [hunknown]
  · rename_i hknown
    rw [extract_eq_ok text hknown]
    simp [hknown, Except.map]

/-- What is provided with the help of grammars that count rows has an outline. -/
theorem exists_render_of_provided {grammars : Grammars} (hcount : CountRows grammars)
    {path text : String} {symbols : List Symbol}
    (h : ofGrammars grammars path text = .ok (some symbols)) :
    ∃ out, Outline.render (.ofText text) symbols = .ok out := by
  obtain ⟨hknown, hextract⟩ := ofGrammars_eq_ok_some_iff.mp h
  rw [extract_eq_ok text hknown] at hextract
  obtain ⟨out, hout, -⟩ := Node.exists_render_symbols _ (hcount _ text hknown)
  exact ⟨out, Except.ok.inj hextract ▸ hout⟩

end Provider

namespace Folder

/-! ## Fetched files -/

theorem fetch_eq_some_iff {disk : Disk} {here : Place} {provider : Provider} {maxSize : Nat}
    {path : String} {entry : Entry} :
    fetch disk here provider maxSize path = some entry ↔
      isTooLarge disk here maxSize path = false ∧ entry.path = path ∧
        disk.readText here path = .ok entry.text ∧
        provider path entry.text = .ok (some entry.symbols) := by
  obtain ⟨own, text, symbols⟩ := entry
  unfold fetch
  cases isTooLarge disk here maxSize path with
  | true => simp
  | false =>
    simp only [Bool.false_eq_true, if_false, true_and]
    cases hread : disk.readText here path with
    | error fault => simp
    | ok found =>
      constructor
      · intro h
        dsimp only at h
        split at h
        · rename_i given hgiven
          cases h
          exact ⟨rfl, rfl, hgiven⟩
        · cases h
      · rintro ⟨rfl, hfound, hgiven⟩
        cases hfound
        dsimp only at hgiven ⊢
        rw [hgiven]

theorem collect_eq_filterMap (disk : Disk) (here : Place) (provider : Provider) (limits : Limits)
    (paths : List String) :
    collect disk here provider limits paths =
      paths.filterMap (fetch disk here provider limits.maxSize) := by
  rw [collect, FanOut.run_eq_map, List.filterMap_map, Function.id_comp]

/-- What is made of the paths of the fetched files is made of the paths that are fetched. -/
theorem map_path_collect {β : Type} (write : String → β) (disk : Disk) (here : Place)
    (provider : Provider) (limits : Limits) (paths : List String) :
    (collect disk here provider limits paths).map (fun entry => write entry.path) =
      (paths.filter fun path => (fetch disk here provider limits.maxSize path).isSome).map write := by
  rw [collect_eq_filterMap]
  induction paths with
  | nil => rfl
  | cons path rest ih =>
    cases hfetch : fetch disk here provider limits.maxSize path with
    | none => rw [List.filterMap_cons_none hfetch, List.filter_cons_of_neg (by simp [hfetch]), ih]
    | some entry =>
      rw [List.filterMap_cons_some hfetch, List.filter_cons_of_pos (by simp [hfetch]), List.map_cons,
        List.map_cons, ih, (fetch_eq_some_iff.mp hfetch).2.1]

/-! ## Rendered blocks -/

/-- The block of a file with the given outline. -/
def blockText (root path outline : String) : String :=
  Path.relativeTo root path ++ "\n---\n" ++ outline ++ "\n"

/-- Blocks that can be rendered are put one behind the other. -/
theorem renderBlocks_eq_ok {root : String} {entries : List Entry} (outline : Entry → String)
    (h : ∀ entry ∈ entries, Outline.render (.ofText entry.text) entry.symbols = .ok (outline entry)) :
    renderBlocks root entries =
      .ok (String.join (entries.map fun entry => blockText root entry.path (outline entry))) := by
  induction entries with
  | nil => rfl
  | cons entry rest ih =>
    have hblock : renderBlock root entry = .ok (blockText root entry.path (outline entry)) := by
      rw [renderBlock, h entry List.mem_cons_self]
      rfl
    rw [renderBlocks, hblock, ih fun other hother => h other (List.mem_cons_of_mem _ hother),
      List.map_cons, String.join_cons]
    rfl

/-- The blocks of files that are fetched with the help of grammars that count rows. -/
theorem exists_renderBlocks_collect {grammars : Grammars} (hcount : CountRows grammars)
    (disk : Disk) (here : Place) (limits : Limits) (root : String) (paths : List String) :
    ∃ out, renderBlocks root (collect disk here (.ofGrammars grammars) limits paths) = .ok out := by
  refine ⟨_, renderBlocks_eq_ok (fun entry =>
    (Outline.render (.ofText entry.text) entry.symbols).toOption.getD "") fun entry hentry => ?_⟩
  rw [collect_eq_filterMap] at hentry
  obtain ⟨path, -, hfetch⟩ := List.mem_filterMap.mp hentry
  obtain ⟨-, -, -, hprovided⟩ := fetch_eq_some_iff.mp hfetch
  obtain ⟨out, hout⟩ := Provider.exists_render_of_provided hcount hprovided
  rw [hout]
  rfl

end Folder

/-- Whatever is extracted from a text can be rendered over it, as one line for each symbol, if the
    rows of its tree are counted.  So the blocks of files can always be rendered. -/
theorem extracted_symbols_rendered (grammars : Grammars) :
    (∀ (language : Language) (text : String), language ≠ .unknown →
      (grammars language text).RowsCounted text →
      ∃ symbols out, Provider.extract grammars language text = .ok symbols ∧
        Outline.render (.ofText text) symbols = .ok out ∧
        ∃ lines, Text.splitOnChar '\n' out.toList = lines ++ [[]] ∧
          lines.length = Symbol.countAll symbols) ∧
    (CountRows grammars → ∀ (disk : Disk) (here : Place) (limits : Folder.Limits) (root : String)
      (paths : List String),
      ∃ out, Folder.renderBlocks root
        (Folder.collect disk here (.ofGrammars grammars) limits paths) = .ok out) := by
  refine ⟨fun language text hknown hrows => ?_, Folder.exists_renderBlocks_collect⟩
  obtain ⟨out, hrender, hlines⟩ := Node.exists_render_symbols language hrows
  exact ⟨_, out, Provider.extract_eq_ok text hknown, hrender, hlines⟩

/-- Grammars that know a class and see nothing in any other text. -/
def classGrammars : Grammars := fun language text =>
  if language = .javaScript ∧ text = Node.classText then Node.classTree
  else ⟨"program", true, 0, 0, 0, [], []⟩

theorem countRows_classGrammars : CountRows classGrammars := by
  intro language text _
  unfold classGrammars
  split
  · rename_i h
    rw [h.2]
    decide
  · intro node hnode
    obtain rfl := List.mem_singleton.mp hnode
    simp [Text.newlinesBefore]

/-- A class and its constructor have an outline, also in a folder. -/
theorem extracted_symbols_rendered_class :
    Node.classTree.RowsCounted Node.classText ∧ CountRows classGrammars ∧
      (∃ symbols out, Provider.extract classGrammars .javaScript Node.classText = .ok symbols ∧
        Outline.render (.ofText Node.classText) symbols = .ok out ∧
        ∃ lines, Text.splitOnChar '\n' out.toList = lines ++ [[]] ∧
          lines.length = Symbol.countAll symbols) ∧
      ∃ out, Folder.renderBlocks "/work" (Folder.collect
        { entries := [(["work"], .folder), (["work", "c.js"], .file Node.classText.toUTF8)] } ["work"]
        (.ofGrammars classGrammars) {} ["/work/c.js"]) = .ok out := by
  have htree : Node.classTree.RowsCounted Node.classText := by decide
  obtain ⟨hextracted, hblocks⟩ := extracted_symbols_rendered classGrammars
  exact ⟨htree, countRows_classGrammars, hextracted .javaScript Node.classText (by decide) htree,
    hblocks countRows_classGrammars _ _ _ _ _⟩

end CodeOutline
