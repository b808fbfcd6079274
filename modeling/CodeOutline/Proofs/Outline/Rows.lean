import CodeOutline.Outline.Render

/-! # Outlines as rows

Rendering goes through a forest by recursion on its shape.  Its result is the same as that of
going once through the pre-order list of the symbols with their depths, which is a plain list of
rows; `renderForest_eq_renderRows` is the bridge.  Everything else about outlines is an induction
over rows and does not look at the shape of the forest again.

An outline is there exactly if every row can be shown, and it is then the rows one after the
other (`renderRows_eq_ok_iff`).
-/

namespace CodeOutline

namespace Symbol

/-! ## Pre-order lists -/

mutual

theorem length_preorderTree (depth : Nat) : ∀ symbol : Symbol,
    (preorderTree depth symbol).length = count symbol
  | ⟨_, _, _, children⟩ => by
    rw [preorderTree, count, List.length_cons, length_preorder (depth + 1) children, Nat.add_comm]

theorem length_preorder (depth : Nat) : ∀ symbols : List Symbol,
    (preorder depth symbols).length = countAll symbols
  | [] => rfl
  | symbol :: rest => by
    rw [preorder, countAll, List.length_append, length_preorderTree depth symbol,
      length_preorder depth rest]

end

theorem preorder_append (depth : Nat) (first second : List Symbol) :
    preorder depth (first ++ second) = preorder depth first ++ preorder depth second := by
  induction first with
  | nil => rfl
  | cons symbol rest ih => simp [preorder, ih]

end Symbol

namespace Outline

open Text (Source)

/-! ## Rows -/

/-- A symbol can be shown if its line is there and its kind has a label. -/
def Showable (source : Source) (symbol : Symbol) : Prop :=
  symbol.line < source.size ∧ symbol.kind.label?.isSome

instance (source : Source) (symbol : Symbol) : Decidable (Showable source symbol) :=
  inferInstanceAs (Decidable (_ ∧ _))

/-- The text of a row, for a symbol that can be shown. -/
def rowText (source : Source) (row : Nat × Symbol) : String :=
  lineText row.1 ((source.line? row.2.line).getD "") (row.2.kind.label?.getD "") row.2.name
    row.2.kind

/-- The rows one after the other, or the error of the first that cannot be shown. -/
def renderRows (source : Source) : List (Nat × Symbol) → Except RenderError String
  | [] => .ok ""
  | (depth, symbol) :: rest => do
    let first ← renderLine source depth symbol.name symbol.kind symbol.line
    let others ← renderRows source rest
    return first ++ others

theorem renderRows_append (source : Source) (first second : List (Nat × Symbol)) :
    renderRows source (first ++ second) = do
      let front ← renderRows source first
      let back ← renderRows source second
      return front ++ back := by
  induction first with
  | nil =>
    rw [List.nil_append]
    cases renderRows source second with
    | error e => rfl
    | ok back => exact congrArg Except.ok String.empty_append.symm
  | cons row rest ih =>
    simp only [List.cons_append, renderRows, ih]
    cases renderLine source row.1 row.2.name row.2.kind row.2.line with
    | error e => rfl
    | ok front =>
      cases renderRows source rest with
      | error e => rfl
      | ok middle =>
        cases renderRows source second with
        | error e => rfl
        | ok back => exact congrArg Except.ok String.append_assoc.symm

mutual

theorem renderTree_eq_renderRows (source : Source) (depth : Nat) : ∀ symbol : Symbol,
    renderTree source depth symbol = renderRows source (Symbol.preorderTree depth symbol)
  | ⟨name, kind, line, children⟩ => by
    rw [renderTree, Symbol.preorderTree, renderRows,
      renderForest_eq_renderRows source (depth + 1) children]

/-- Rendering a forest is rendering its pre-order list row by row. -/
theorem renderForest_eq_renderRows (source : Source) (depth : Nat) : ∀ symbols : List Symbol,
    renderForest source depth symbols = renderRows source (Symbol.preorder depth symbols)
  | [] => rfl
  | symbol :: rest => by
    rw [renderForest, Symbol.preorder, renderRows_append,
      renderTree_eq_renderRows source depth symbol, renderForest_eq_renderRows source depth rest]

end

/-! ## When rows can be shown -/

theorem renderLine_eq_ok_iff {source : Source} {depth : Nat} {symbol : Symbol} {text : String} :
    renderLine source depth symbol.name symbol.kind symbol.line = .ok text ↔
      Showable source symbol ∧ text = rowText source (depth, symbol) := by
  unfold renderLine Showable rowText
  cases hline : source.line? symbol.line with
  | none =>
    have : ¬ symbol.line < source.size := by simpa [Source.line?, Source.size] using hline
    simp [this]
  | some declaration =>
    have : symbol.line < source.size := (List.getElem?_eq_some_iff.mp hline).1
    cases symbol.kind.label? with
    | none => simp
    | some label => simp [this, eq_comm]

/-- An outline of rows is there exactly if every row can be shown, and consists of their texts. -/
theorem renderRows_eq_ok_iff {source : Source} {rows : List (Nat × Symbol)} {out : String} :
    renderRows source rows = .ok out ↔
      (∀ row ∈ rows, Showable source row.2) ∧ out = String.join (rows.map (rowText source)) := by
  induction rows generalizing out with
  | nil => simp [renderRows, eq_comm]
  | cons row rest ih =>
    obtain ⟨depth, symbol⟩ := row
    simp only [List.forall_mem_cons, List.map_cons, String.join_cons]
    constructor
    · intro h
      simp only [renderRows] at h
      cases hfirst : renderLine source depth symbol.name symbol.kind symbol.line with
      | error e => rw [hfirst] at h; cases h
      | ok first =>
        cases hothers : renderRows source rest with
        | error e => rw [hfirst, hothers] at h; cases h
        | ok others =>
          rw [hfirst, hothers] at h
          cases h
          obtain ⟨hshow, rfl⟩ := renderLine_eq_ok_iff.mp hfirst
          obtain ⟨hrest, rfl⟩ := ih.mp hothers
          exact ⟨⟨hshow, hrest⟩, rfl⟩
    · rintro ⟨⟨hshow, hrest⟩, rfl⟩
      rw [renderRows, renderLine_eq_ok_iff.mpr ⟨hshow, rfl⟩, ih.mpr ⟨hrest, rfl⟩]
      rfl

/-- What it takes to render a forest, and what comes out. -/
theorem render_eq_ok_iff {source : Source} {symbols : List Symbol} {out : String} :
    render source symbols = .ok out ↔
      (∀ row ∈ Symbol.preorder 0 symbols, Showable source row.2) ∧
        out = String.join ((Symbol.preorder 0 symbols).map (rowText source)) := by
  rw [render, renderForest_eq_renderRows, renderRows_eq_ok_iff]

end Outline

end CodeOutline
