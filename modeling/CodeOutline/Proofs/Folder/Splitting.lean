import Mathlib.Data.List.Forall2
import CodeOutline.Proofs.Folder.Blocks
import CodeOutline.Proofs.Path.Characters

/-! # Splitting a folder outline into its blocks

Nothing in a folder outline is escaped, and yet its blocks can be told apart: a block ends with an
empty line, and no line before it is empty unless it is the path.  For a row of an outline has at least
a label, and neither a path nor a row is broken over several lines.

* `splitOnChar_renderBlocks` cuts a folder outline into the lines of its blocks.
* `forall₂_of_blockLines` reads blocks off a list of lines.  The first two lines of a block are its
  path and the dashes, and what follows goes up to the next empty line.
-/

namespace CodeOutline.Folder

open Text (splitOnChar)

variable {root : String}

/-! ## Lines of blocks -/

/-- Neither the path nor a name of a symbol, at any depth, has a line feed in it. -/
def Entry.OnOneLine (entry : Entry) : Prop :=
  '\n' ∉ entry.path.toList ∧ Symbol.NamesOnOneLine entry.symbols

/-- The rows of the outline of a file. -/
def Entry.rows (entry : Entry) : List (List Char) :=
  (Symbol.preorder 0 entry.symbols).map (Outline.rowBody (.ofText entry.text))

/-- The lines of the block of a file. -/
def blockLines (root : String) (entry : Entry) : List (List Char) :=
  (Path.relativeTo root entry.path).toList :: "---".toList :: (entry.rows ++ [[]])

theorem nil_not_mem_rows (entry : Entry) : [] ∉ entry.rows := by
  intro h
  obtain ⟨row, -, hrow⟩ := List.mem_map.mp h
  simp [Outline.rowBody] at hrow

theorem toList_outline {entry : Entry} {outline : String}
    (h : Outline.render (.ofText entry.text) entry.symbols = .ok outline) :
    outline.toList = entry.rows.flatMap (· ++ ['\n']) := by
  obtain ⟨-, rfl⟩ := Outline.render_eq_ok_iff.mp h
  rw [Entry.rows, String.toList_join, List.flatMap_map, List.flatMap_map]
  simp only [Outline.toList_rowText]

theorem toList_blockText {entry : Entry} {outline : String}
    (h : Outline.render (.ofText entry.text) entry.symbols = .ok outline) :
    (blockText root entry.path outline).toList = (blockLines root entry).flatMap (· ++ ['\n']) := by
  simp [blockText, blockLines, toList_outline h]

/-- The lines of a block are lines: none of them has a line feed in it. -/
theorem newline_not_mem_blockLines {entry : Entry} (hentry : entry.OnOneLine) {outline : String}
    (h : Outline.render (.ofText entry.text) entry.symbols = .ok outline) :
    ∀ line ∈ blockLines root entry, '\n' ∉ line := by
  have hrows : ∀ line ∈ entry.rows, '\n' ∉ line := by
    intro line hline
    obtain ⟨row, hrow, rfl⟩ := List.mem_map.mp hline
    exact Outline.newline_not_mem_rows hentry.2 (Outline.render_eq_ok_iff.mp h).1 row hrow
  have hpath := Path.newline_not_mem_relativeTo root hentry.1
  simp only [blockLines, List.mem_cons, List.mem_append, List.not_mem_nil, or_false]
  rintro line (rfl | rfl | hline | rfl)
  · exact hpath
  · decide
  · exact hrows line hline
  · exact List.not_mem_nil

/-! ## Rendering block by block -/

theorem renderBlocks_cons (entry : Entry) (rest : List Entry) :
    renderBlocks root (entry :: rest) =
      match Outline.render (.ofText entry.text) entry.symbols with
      | .error error => .error error
      | .ok outline => (renderBlocks root rest).map (blockText root entry.path outline ++ ·) := by
  rw [renderBlocks, renderBlock]
  cases Outline.render (.ofText entry.text) entry.symbols with
  | error error => rfl
  | ok outline => cases renderBlocks root rest <;> rfl

theorem renderBlocks_eq_error_iff {entries : List Entry} {error : RenderError} :
    renderBlocks root entries = .error error ↔
      ∃ before entry after, entries = before ++ entry :: after ∧
        (∀ earlier ∈ before, ∃ outline,
          Outline.render (.ofText earlier.text) earlier.symbols = .ok outline) ∧
        Outline.render (.ofText entry.text) entry.symbols = .error error := by
  induction entries with
  | nil => simp [renderBlocks]
  | cons first rest ih =>
    rw [renderBlocks_cons]
    cases hfirst : Outline.render (.ofText first.text) first.symbols with
    | error own =>
      constructor
      · intro h
        cases h
        exact ⟨[], first, rest, rfl, by simp, hfirst⟩
      · rintro ⟨before, entry, after, heq, hbefore, herror⟩
        cases before with
        | nil =>
          cases heq
          rw [hfirst] at herror
          simpa using herror
        | cons earlier before =>
          cases heq
          obtain ⟨outline, houtline⟩ := hbefore first List.mem_cons_self
          rw [hfirst] at houtline
          cases houtline
    | ok outline =>
      constructor
      · intro h
        cases hrest : renderBlocks root rest with
        | ok blocks => simp [hrest, Except.map] at h
        | error own =>
          obtain rfl : own = error := by simpa [hrest, Except.map] using h
          obtain ⟨before, entry, after, rfl, hbefore, herror⟩ := ih.mp hrest
          refine ⟨first :: before, entry, after, rfl, ?_, herror⟩
          intro earlier hearlier
          cases hearlier with
          | head => exact ⟨outline, hfirst⟩
          | tail _ hearlier => exact hbefore earlier hearlier
      · rintro ⟨before, entry, after, heq, hbefore, herror⟩
        cases before with
        | nil =>
          cases heq
          rw [hfirst] at herror
          cases herror
        | cons earlier before =>
          cases heq
          rw [ih.mpr ⟨before, entry, after, rfl,
            fun other hother => hbefore other (List.mem_cons_of_mem _ hother), herror⟩]
          rfl

theorem renderBlocks_eq_ok_iff {entries : List Entry} {out : String} :
    renderBlocks root entries = .ok out ↔
      (∀ entry ∈ entries, ∃ outline,
        Outline.render (.ofText entry.text) entry.symbols = .ok outline) ∧
      out.toList = (entries.flatMap (blockLines root)).flatMap (· ++ ['\n']) := by
  induction entries generalizing out with
  | nil =>
    rw [renderBlocks, List.flatMap_nil, List.flatMap_nil, String.toList_eq_nil_iff]
    simp [eq_comm]
  | cons first rest ih =>
    rw [renderBlocks_cons, List.forall_mem_cons, List.flatMap_cons, List.flatMap_append]
    cases hfirst : Outline.render (.ofText first.text) first.symbols with
    | error error => simp
    | ok outline =>
      rw [← toList_blockText hfirst]
      constructor
      · intro h
        cases hrest : renderBlocks root rest with
        | error error => simp [hrest, Except.map] at h
        | ok blocks =>
          obtain ⟨hall, hblocks⟩ := ih.mp hrest
          obtain rfl : blockText root first.path outline ++ blocks = out := by
            simpa [hrest, Except.map] using h
          exact ⟨⟨⟨outline, rfl⟩, hall⟩, by rw [String.toList_append, hblocks]⟩
      · rintro ⟨⟨-, hall⟩, hout⟩
        rw [ih.mpr ⟨hall, String.toList_ofList⟩]
        simp only [Except.map, Except.ok.injEq]
        apply String.ext
        rw [hout, String.toList_append, String.toList_ofList]

/-- A folder outline is cut into the lines of its blocks at its line feeds. -/
theorem splitOnChar_renderBlocks {entries : List Entry} {out : String}
    (hentries : ∀ entry ∈ entries, entry.OnOneLine) (h : renderBlocks root entries = .ok out) :
    splitOnChar '\n' out.toList = entries.flatMap (blockLines root) ++ [[]] := by
  obtain ⟨hall, hout⟩ := renderBlocks_eq_ok_iff.mp h
  have hlines : ∀ line ∈ entries.flatMap (blockLines root), '\n' ∉ id line := by
    intro line hline
    obtain ⟨entry, hentry, hline⟩ := List.mem_flatMap.mp hline
    obtain ⟨outline, houtline⟩ := hall entry hentry
    exact newline_not_mem_blockLines (hentries entry hentry) houtline line hline
  rw [hout]
  simpa using Text.splitOnChar_flatMap hlines

/-! ## Reading blocks off lines -/

/-- What comes before the first empty line and what comes behind it. -/
theorem append_nil_cons_inj {before other after rest : List (List Char)} (hbefore : [] ∉ before)
    (hother : [] ∉ other) (h : before ++ [] :: after = other ++ [] :: rest) :
    before = other ∧ after = rest := by
  induction before generalizing other with
  | nil =>
    cases other with
    | nil => simpa using h
    | cons line other => simp_all
  | cons line before ih =>
    cases other with
    | nil => simp_all
    | cons first other =>
      simp only [List.cons_append, List.cons.injEq] at h
      obtain ⟨rfl, htail⟩ := h
      simp only [List.mem_cons, not_or] at hbefore hother
      obtain ⟨rfl, rfl⟩ := ih hbefore.2 hother.2 htail
      exact ⟨rfl, rfl⟩

/-- Two files that are shown by the same path and the same outline. -/
def SameBlock (root : String) (entry other : Entry) : Prop :=
  Path.relativeTo root entry.path = Path.relativeTo root other.path ∧
    ∃ outline, Outline.render (.ofText entry.text) entry.symbols = .ok outline ∧
      Outline.render (.ofText other.text) other.symbols = .ok outline

theorem forall₂_of_blockLines {entries others : List Entry}
    (hall : ∀ entry ∈ entries, ∃ outline,
      Outline.render (.ofText entry.text) entry.symbols = .ok outline)
    (hallOther : ∀ entry ∈ others, ∃ outline,
      Outline.render (.ofText entry.text) entry.symbols = .ok outline)
    (h : entries.flatMap (blockLines root) = others.flatMap (blockLines root)) :
    List.Forall₂ (SameBlock root) entries others := by
  induction entries generalizing others with
  | nil =>
    cases others with
    | nil => exact .nil
    | cons other others => simp [blockLines] at h
  | cons entry entries ih =>
    cases others with
    | nil => simp [blockLines] at h
    | cons other others =>
      simp only [List.flatMap_cons, blockLines, List.cons_append, List.append_assoc,
        List.nil_append, List.cons.injEq, true_and, String.toList_inj] at h
      obtain ⟨hpath, hlines⟩ := h
      obtain ⟨hrows, hrest⟩ :=
        append_nil_cons_inj (nil_not_mem_rows entry) (nil_not_mem_rows other) hlines
      obtain ⟨⟨outline, houtline⟩, hall⟩ := List.forall_mem_cons.mp hall
      obtain ⟨⟨outline', houtline'⟩, hallOther⟩ := List.forall_mem_cons.mp hallOther
      -- An outline is nothing but its rows.
      have hsame : outline' = outline := by
        apply String.ext
        rw [toList_outline houtline, toList_outline houtline', hrows]
      exact .cons ⟨hpath, outline, houtline, hsame ▸ houtline'⟩ (ih hall hallOther hrest)

/-! ## The outline determines the blocks -/

/-- Files with the same folder outline have the same blocks one by one, if paths and names stand on
    one line.  And if there is no folder outline, that is because of the first file that has no
    outline by itself. -/
theorem same_blocks_of_same_outline (root : String) :
    (∀ (entries others : List Entry) (out : String),
      (∀ entry ∈ entries, entry.OnOneLine) → (∀ entry ∈ others, entry.OnOneLine) →
      renderBlocks root entries = .ok out → renderBlocks root others = .ok out →
      entries.length = others.length ∧ List.Forall₂ (SameBlock root) entries others) ∧
    (∀ (entries : List Entry) (error : RenderError),
      renderBlocks root entries = .error error ↔
        ∃ before entry after, entries = before ++ entry :: after ∧
          (∀ earlier ∈ before, ∃ outline,
            Outline.render (.ofText earlier.text) earlier.symbols = .ok outline) ∧
          Outline.render (.ofText entry.text) entry.symbols = .error error) := by
  refine ⟨fun entries others out hentries hothers h hother => ?_, fun entries error =>
    renderBlocks_eq_error_iff⟩
  have hlines : entries.flatMap (blockLines root) = others.flatMap (blockLines root) :=
    List.append_cancel_right ((splitOnChar_renderBlocks hentries h).symm.trans
      (splitOnChar_renderBlocks hothers hother))
  have hsame := forall₂_of_blockLines (renderBlocks_eq_ok_iff.mp h).1
    (renderBlocks_eq_ok_iff.mp hother).1 hlines
  exact ⟨hsame.length_eq, hsame⟩

instance (entry : Entry) : Decidable entry.OnOneLine :=
  inferInstanceAs (Decidable (_ ∧ _))

/-- The root itself has an empty line for its path, and a file may be named like the line of dashes. -/
theorem same_blocks_of_same_outline_empty_path :
    let entries : List Entry :=
      [⟨"/w", "", []⟩, ⟨"/w/---", "class A", [⟨"A", .classDecl, 0, []⟩]⟩]
    let others : List Entry :=
      [⟨"/w/.", "b", []⟩, ⟨"/w//---/", "A = 1", [⟨"A", .classDecl, 0, []⟩]⟩]
    let broken : List Entry := entries ++ [⟨"/w/c", "c", [⟨"c", .function, 5, []⟩]⟩]
    (∀ entry ∈ entries, entry.OnOneLine) ∧ (∀ entry ∈ others, entry.OnOneLine) ∧
      renderBlocks "/w" entries = .ok "\n---\n\n---\n---\nClass A\n\n" ∧
      renderBlocks "/w" others = .ok "\n---\n\n---\n---\nClass A\n\n" ∧
      List.Forall₂ (SameBlock "/w") entries others ∧
      renderBlocks "/w" broken = .error (.lineMissing "c" 5 1) := by
  intro entries others broken
  obtain ⟨hblocks, herror⟩ := same_blocks_of_same_outline "/w"
  have hentries : ∀ entry ∈ entries, entry.OnOneLine := by decide
  have hothers : ∀ entry ∈ others, entry.OnOneLine := by decide
  have h : renderBlocks "/w" entries = .ok "\n---\n\n---\n---\nClass A\n\n" := rfl
  have hother : renderBlocks "/w" others = .ok "\n---\n\n---\n---\nClass A\n\n" := rfl
  refine ⟨hentries, hothers, h, hother, (hblocks _ _ _ hentries hothers h hother).2,
    (herror _ _).mpr ⟨entries, _, [], rfl, ?_, rfl⟩⟩
  intro earlier hearlier
  simp only [entries, List.mem_cons, List.not_mem_nil, or_false] at hearlier
  rcases hearlier with rfl | rfl
  · exact ⟨_, rfl⟩
  · exact ⟨_, rfl⟩

end CodeOutline.Folder
