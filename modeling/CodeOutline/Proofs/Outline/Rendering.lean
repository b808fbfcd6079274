import Mathlib.Data.List.Forall2
import CodeOutline.Proofs.Outline.Rows

/-! # What rendering gives

A full account of rendering, for every forest and every source: when it fails and with which error,
and what it writes when it does not.

Both are read off the pre-order list of a forest.  The first row that cannot be shown is to blame
for a failure (`renderRows_eq_error_iff`), and no row behind it is looked at.  `Blamed` says which
error that is: a missing line comes before a missing label.  If there is no such row, the text of
each row is the one that `Written` describes, piece by piece, and the outline is these texts one
behind the other (`forall₂_written_iff`).
-/

namespace CodeOutline

theorem Kind.isSome_label?_iff {kind : Kind} :
    kind.label?.isSome ↔ ∀ code, kind ≠ .other code := by
  cases kind <;> simp [label?]

theorem Kind.isCallable_iff {kind : Kind} : kind.isCallable ↔ kind = .function ∨ kind = .method := by
  cases kind <;> simp [isCallable]

namespace Outline

open Text (Source)

/-! ## Failures -/

/-- The error that a symbol is to blame for.  A symbol without a line is not asked for its kind. -/
inductive Blamed (source : Source) (symbol : Symbol) : RenderError → Prop where
  | line : source.size ≤ symbol.line →
      Blamed source symbol (.lineMissing symbol.name symbol.line source.size)
  | label {code : Nat} : symbol.line < source.size → symbol.kind = .other code →
      Blamed source symbol (.labelMissing symbol.name symbol.kind)

theorem showable_iff {source : Source} {symbol : Symbol} :
    Showable source symbol ↔ symbol.line < source.size ∧ ∀ code, symbol.kind ≠ .other code := by
  rw [Showable, Kind.isSome_label?_iff]

theorem blamed_iff {source : Source} {symbol : Symbol} {e : RenderError} :
    Blamed source symbol e ↔
      source.size ≤ symbol.line ∧ e = .lineMissing symbol.name symbol.line source.size ∨
        symbol.line < source.size ∧ (∃ code, symbol.kind = .other code) ∧
          e = .labelMissing symbol.name symbol.kind := by
  constructor
  · intro h
    cases h with
    | line hline => exact .inl ⟨hline, rfl⟩
    | label hline hkind => exact .inr ⟨hline, ⟨_, hkind⟩, rfl⟩
  · rintro (⟨hline, rfl⟩ | ⟨hline, ⟨code, hkind⟩, rfl⟩)
    · exact .line hline
    · exact .label hline hkind

theorem renderLine_eq_error_iff {source : Source} {depth : Nat} {symbol : Symbol} {e : RenderError} :
    renderLine source depth symbol.name symbol.kind symbol.line = .error e ↔
      Blamed source symbol e := by
  rw [blamed_iff]
  unfold renderLine
  cases hline : source.line? symbol.line with
  | none =>
    have hmissing : source.size ≤ symbol.line := by
      simpa [Source.line?, Source.size] using hline
    simp [hmissing, Nat.not_lt.mpr hmissing, eq_comm]
  | some declaration =>
    have hthere : symbol.line < source.size := (List.getElem?_eq_some_iff.mp hline).1
    cases hlabel : symbol.kind.label? with
    | none =>
      have hother : ∃ code, symbol.kind = .other code := by
        simpa [hlabel] using mt Kind.isSome_label?_iff.mpr (by simp [hlabel])
      simp [hthere, Nat.not_le.mpr hthere, hother, eq_comm]
    | some label =>
      have hdefined : ∀ code, symbol.kind ≠ .other code :=
        Kind.isSome_label?_iff.mp (by simp [hlabel])
      simp [Nat.not_le.mpr hthere, hdefined]

theorem renderRows_eq_error_iff {source : Source} {rows : List (Nat × Symbol)} {e : RenderError} :
    renderRows source rows = .error e ↔
      ∃ before row after, rows = before ++ row :: after ∧
        (∀ earlier ∈ before, Showable source earlier.2) ∧ Blamed source row.2 e := by
  induction rows with
  | nil => simp [renderRows]
  | cons row rest ih =>
    obtain ⟨depth, symbol⟩ := row
    rw [renderRows]
    constructor
    · intro h
      -- Either the first row is to blame, or it joins those before the one that is.
      cases hfirst : renderLine source depth symbol.name symbol.kind symbol.line with
      | error fault =>
        rw [hfirst] at h
        cases h
        exact ⟨[], (depth, symbol), rest, rfl, nofun, renderLine_eq_error_iff.mp hfirst⟩
      | ok first =>
        cases hothers : renderRows source rest with
        | ok others => rw [hfirst, hothers] at h; cases h
        | error fault =>
          rw [hfirst, hothers] at h
          cases h
          obtain ⟨before, row, after, rfl, hbefore, hblamed⟩ := ih.mp hothers
          have hshow := (renderLine_eq_ok_iff.mp hfirst).1
          exact ⟨(depth, symbol) :: before, row, after, rfl,
            List.forall_mem_cons.mpr ⟨hshow, hbefore⟩, hblamed⟩
    · rintro ⟨before, row, after, heq, hbefore, hblamed⟩
      -- What comes before the row to blame tells whether the first row is that one.
      cases before with
      | nil =>
        obtain ⟨rfl, rfl⟩ := List.cons.inj heq
        rw [renderLine_eq_error_iff.mpr hblamed]
        rfl
      | cons earlier before =>
        obtain ⟨rfl, hrest⟩ := List.cons.inj heq
        obtain ⟨hshow, hbefore⟩ := List.forall_mem_cons.mp hbefore
        rw [renderLine_eq_ok_iff.mpr ⟨hshow, rfl⟩,
          ih.mpr ⟨before, row, after, hrest, hbefore, hblamed⟩]
        rfl

/-- A forest has an outline exactly if every symbol stands on a line that is there and has a defined
    kind.  If not, the error is about the first symbol in pre-order for which this fails: about its
    line, if that is behind the last one, and about its kind otherwise. -/
theorem render_names_first_culprit (source : Source) (symbols : List Symbol) :
    ((∃ out, render source symbols = .ok out) ↔
      ∀ row ∈ Symbol.preorder 0 symbols,
        row.2.line < source.size ∧ ∀ code, row.2.kind ≠ .other code) ∧
    ∀ e, render source symbols = .error e ↔
      ∃ before depth culprit after,
        Symbol.preorder 0 symbols = before ++ (depth, culprit) :: after ∧
        (∀ row ∈ before, row.2.line < source.size ∧ ∀ code, row.2.kind ≠ .other code) ∧
        (source.size ≤ culprit.line ∧ e = .lineMissing culprit.name culprit.line source.size ∨
          culprit.line < source.size ∧ (∃ code, culprit.kind = .other code) ∧
            e = .labelMissing culprit.name culprit.kind) := by
  simp only [← showable_iff, ← blamed_iff]
  constructor
  · constructor
    · rintro ⟨out, h⟩
      exact (render_eq_ok_iff.mp h).1
    · intro hshow
      exact ⟨_, render_eq_ok_iff.mpr ⟨hshow, rfl⟩⟩
  · intro e
    rw [render, renderForest_eq_renderRows, renderRows_eq_error_iff]
    constructor
    · rintro ⟨before, ⟨depth, culprit⟩, after, h⟩
      exact ⟨before, depth, culprit, after, h⟩
    · rintro ⟨before, depth, culprit, after, h⟩
      exact ⟨before, (depth, culprit), after, h⟩

-- The member comes before the next class, and its line is looked at before its kind.
example : render (.ofText "class A\nclass B")
    [⟨"A", .classDecl, 0, [⟨"x", .other 27, 2, []⟩]⟩, ⟨"B", .other 0, 1, []⟩] =
      .error (.lineMissing "x" 2 2) :=
  rfl

/-! ## Texts -/

/-- The text of a row, with its line feed.  Only a function or a method shows a return type, and only
    if its declaration line has one. -/
inductive Written (source : Source) : Nat × Symbol → String → Prop where
  | plain {depth : Nat} {symbol : Symbol} {declaration label : String} :
      source.line? symbol.line = some declaration → symbol.kind.label? = some label →
      (symbol.kind = .function ∨ symbol.kind = .method →
        Declaration.returnType? declaration = none) →
      Written source (depth, symbol)
        (String.ofList (List.replicate depth '\t') ++ Declaration.visibility declaration ++ label
          ++ " " ++ symbol.name ++ "\n")
  | typed {depth : Nat} {symbol : Symbol} {declaration label type : String} :
      source.line? symbol.line = some declaration → symbol.kind.label? = some label →
      symbol.kind = .function ∨ symbol.kind = .method →
      Declaration.returnType? declaration = some type →
      Written source (depth, symbol)
        (String.ofList (List.replicate depth '\t') ++ Declaration.visibility declaration ++ label
          ++ " " ++ symbol.name ++ ": " ++ type ++ "\n")

theorem exists_line_of_showable {source : Source} {symbol : Symbol} (h : Showable source symbol) :
    ∃ declaration label, source.line? symbol.line = some declaration ∧
      symbol.kind.label? = some label := by
  obtain ⟨label, hlabel⟩ := Option.isSome_iff_exists.mp h.2
  exact ⟨_, label, List.getElem?_eq_getElem h.1, hlabel⟩

theorem written_iff {source : Source} {row : Nat × Symbol} {text : String} :
    Written source row text ↔ Showable source row.2 ∧ text = rowText source row := by
  constructor
  · intro h
    cases h with
    | @plain depth symbol declaration label hline hlabel hnone =>
      refine ⟨⟨(List.getElem?_eq_some_iff.mp hline).1, by simp [hlabel]⟩, ?_⟩
      -- There is no type either because of the kind or because of the line.
      by_cases hcallable : symbol.kind.isCallable
      · simp [rowText, lineText, hline, hlabel, hcallable, hnone (Kind.isCallable_iff.mp hcallable)]
      · simp [rowText, lineText, hline, hlabel, hcallable]
    | @typed depth symbol declaration label type hline hlabel hkind htype =>
      refine ⟨⟨(List.getElem?_eq_some_iff.mp hline).1, by simp [hlabel]⟩, ?_⟩
      simp [rowText, lineText, hline, hlabel, Kind.isCallable_iff.mpr hkind, htype, String.append_assoc]
  · rintro ⟨hshow, rfl⟩
    obtain ⟨depth, symbol⟩ := row
    obtain ⟨declaration, label, hline, hlabel⟩ := exists_line_of_showable hshow
    by_cases hcallable : symbol.kind.isCallable
    · cases htype : Declaration.returnType? declaration with
      | none =>
        have hplain : Written source (depth, symbol) _ := .plain hline hlabel fun _ => htype
        simpa [rowText, lineText, hline, hlabel, hcallable, htype] using hplain
      | some type =>
        have htyped : Written source (depth, symbol) _ :=
          .typed hline hlabel (Kind.isCallable_iff.mp hcallable) htype
        simpa [rowText, lineText, hline, hlabel, hcallable, htype, String.append_assoc] using htyped
    · have hplain : Written source (depth, symbol) _ :=
        .plain hline hlabel fun hkind => absurd (Kind.isCallable_iff.mpr hkind) hcallable
      simpa [rowText, lineText, hline, hlabel, hcallable] using hplain

theorem forall₂_written_iff {source : Source} {rows : List (Nat × Symbol)} {texts : List String} :
    List.Forall₂ (Written source) rows texts ↔
      (∀ row ∈ rows, Showable source row.2) ∧ texts = rows.map (rowText source) := by
  induction rows generalizing texts with
  | nil => simp
  | cons row rest ih =>
    rw [List.forall₂_cons_left_iff, List.forall_mem_cons, List.map_cons]
    constructor
    · rintro ⟨text, others, hfirst, hothers, rfl⟩
      obtain ⟨hshow, rfl⟩ := written_iff.mp hfirst
      obtain ⟨hrest, rfl⟩ := ih.mp hothers
      exact ⟨⟨hshow, hrest⟩, rfl⟩
    · rintro ⟨⟨hshow, hrest⟩, rfl⟩
      exact ⟨_, _, written_iff.mpr ⟨hshow, rfl⟩, ih.mpr ⟨hrest, rfl⟩, rfl⟩

theorem render_eq_ok_iff_written {source : Source} {symbols : List Symbol} {out : String} :
    render source symbols = .ok out ↔
      ∃ texts, List.Forall₂ (Written source) (Symbol.preorder 0 symbols) texts ∧
        out = String.join texts := by
  simp only [render_eq_ok_iff, forall₂_written_iff]
  constructor
  · rintro ⟨hshow, rfl⟩
    exact ⟨_, ⟨hshow, rfl⟩, rfl⟩
  · rintro ⟨texts, ⟨hshow, rfl⟩, rfl⟩
    exact ⟨hshow, rfl⟩

/-! ## Other sources and further symbols -/

theorem Written.of_line?_eq {source other : Source} {row : Nat × Symbol} {text : String}
    (h : Written source row text) (hline : other.line? row.2.line = source.line? row.2.line) :
    Written other row text := by
  cases h with
  | plain hsource hlabel hnone => exact .plain (hline.trans hsource) hlabel hnone
  | typed hsource hlabel hkind htype => exact .typed (hline.trans hsource) hlabel hkind htype

theorem forall₂_written_congr {source other : Source} {rows : List (Nat × Symbol)}
    {texts : List String} (h : List.Forall₂ (Written source) rows texts)
    (hlines : ∀ row ∈ rows, other.line? row.2.line = source.line? row.2.line) :
    List.Forall₂ (Written other) rows texts := by
  induction h with
  | nil => exact .nil
  | cons hfirst _ ih =>
    obtain ⟨hline, hrest⟩ := List.forall_mem_cons.mp hlines
    exact .cons (hfirst.of_line?_eq hline) (ih hrest)

theorem render_congr {source other : Source} {symbols : List Symbol} {out : String}
    (hlines : ∀ row ∈ Symbol.preorder 0 symbols, other.line? row.2.line = source.line? row.2.line)
    (h : render source symbols = .ok out) : render other symbols = .ok out := by
  obtain ⟨texts, htexts, rfl⟩ := render_eq_ok_iff_written.mp h
  exact render_eq_ok_iff_written.mpr ⟨texts, forall₂_written_congr htexts hlines, rfl⟩

/-- An outline is the rows of the forest in pre-order, each written from its symbol and the line it
    points at.  So it is the same over every source with these lines, and the outline of two forests
    side by side is the outline of the one followed by that of the other; the first that fails
    makes them fail. -/
theorem render_writes_preorder (source : Source) (symbols : List Symbol) :
    (∀ out, render source symbols = .ok out ↔
      ∃ texts, List.Forall₂ (Written source) (Symbol.preorder 0 symbols) texts ∧
        out = String.join texts) ∧
    (∀ other : Source,
      (∀ row ∈ Symbol.preorder 0 symbols, other.line? row.2.line = source.line? row.2.line) →
      ∀ out, render other symbols = .ok out ↔ render source symbols = .ok out) ∧
    ∀ more : List Symbol, render source (symbols ++ more) = do
      let front ← render source symbols
      let back ← render source more
      return front ++ back := by
  refine ⟨fun out => render_eq_ok_iff_written, fun other hlines out => ?_, fun more => ?_⟩
  · exact ⟨render_congr fun row hrow => (hlines row hrow).symm, render_congr hlines⟩
  · simp only [render, renderForest_eq_renderRows, Symbol.preorder_append, renderRows_append]

/-- A comment that no symbol points at does not matter, and a return type does. -/
theorem render_writes_preorder_typed_method :
    ∃ out,
      render (.ofText "class A\n// f\npublic int f()\n")
        [⟨"A", .classDecl, 0, [⟨"f", .method, 2, []⟩]⟩] = .ok out ∧
      render (.ofText "class A\n\npublic int f()")
        [⟨"A", .classDecl, 0, [⟨"f", .method, 2, []⟩]⟩] = .ok out ∧
      out = "Class A\n\tpublic Method f: int\n" := by
  have hout : render (.ofText "class A\n// f\npublic int f()\n")
      [⟨"A", .classDecl, 0, [⟨"f", .method, 2, []⟩]⟩] =
        .ok "Class A\n\tpublic Method f: int\n" := rfl
  obtain ⟨-, hother, -⟩ := render_writes_preorder (.ofText "class A\n// f\npublic int f()\n")
    [⟨"A", .classDecl, 0, [⟨"f", .method, 2, []⟩]⟩]
  refine ⟨_, hout, (hother _ ?_ _).mpr hout, rfl⟩
  decide

end Outline

end CodeOutline
