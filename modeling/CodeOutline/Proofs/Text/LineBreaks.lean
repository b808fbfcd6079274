import CodeOutline.Outline.Render
import CodeOutline.Proofs.Text.Offsets

/-! # Lines and their line breaks

Between the lines of a text stand line feeds, each with or without a carriage return before it.  So the
lines keep all of a text but some of its carriage returns: `withoutReturns` says which ones get lost.
This is a matter of what one more character at the front does to the lines (`lines_cons`): it goes to
the front of the first line, unless it is a carriage return and a line feed or the end of the text
follows.

A text with other line breaks has the same lines, and so the same outline (`ofText_withReturns`).
-/

namespace CodeOutline.Text

/-- The text without the carriage returns that stand directly before a line feed or at the very end. -/
def withoutReturns : List Char → List Char
  | [] => []
  | c :: rest =>
    if c = '\r' ∧ (rest = [] ∨ rest.head? = some '\n') then withoutReturns rest
    else c :: withoutReturns rest

/-- The text with a carriage return put before every line feed. -/
def withReturns (text : List Char) : List Char :=
  text.flatMap fun c => if c = '\n' then ['\r', '\n'] else [c]

/-- `LineAt before rest line`: the stretch `line` of the text `before ++ rest` holds the offset between
    the two, and reaches on both sides up to a line feed or an end of the text. -/
def LineAt (before rest line : List Char) : Prop :=
  ∃ done front back later, before = done ++ front ∧ rest = back ++ later ∧ line = front ++ back ∧
    '\n' ∉ line ∧ (done = [] ∨ ∃ earlier, done = earlier ++ ['\n']) ∧
    (later = [] ∨ ∃ others, later = '\n' :: others)

/-! ## One more character -/

theorem dropReturn_concat (front : List Char) (c : Char) :
    dropReturn (front ++ [c]) = if c = '\r' then front else front ++ [c] := by
  by_cases hc : c = '\r' <;> simp [dropReturn, hc]

theorem dropReturn_cons (c : Char) (line : List Char) :
    dropReturn (c :: line) = if c = '\r' ∧ line = [] then [] else c :: dropReturn line := by
  cases hline : line.reverse with
  | nil =>
    obtain rfl : line = [] := List.reverse_eq_nil_iff.mp hline
    simpa [dropReturn] using dropReturn_concat [] c
  | cons last front =>
    obtain rfl : line = front.reverse ++ [last] := by
      rw [← List.reverse_cons, ← hline, List.reverse_reverse]
    rw [← List.cons_append, dropReturn_concat, dropReturn_concat]
    by_cases hlast : last = '\r' <;> simp [hlast]

theorem takeWhile_eq_nil_iff_lineBreak {rest : List Char} :
    rest.takeWhile (· ≠ '\n') = [] ↔ rest = [] ∨ rest.head? = some '\n' := by
  cases rest with
  | nil => simp
  | cons c rest => by_cases hc : c = '\n' <;> simp [hc]

theorem splitOnChar_eq_cons (sep : Char) (text : List Char) :
    ∃ pieces, splitOnChar sep text = text.takeWhile (· ≠ sep) :: pieces := by
  have hhead := head?_splitOnChar sep text
  cases hsplit : splitOnChar sep text with
  | nil => simp [hsplit] at hhead
  | cons piece pieces =>
    rw [hsplit, List.head?_cons, Option.some.injEq] at hhead
    exact ⟨pieces, by rw [hhead]⟩

theorem lines_ne_nil (text : List Char) : lines text ≠ [] := by
  obtain ⟨pieces, hsplit⟩ := splitOnChar_eq_cons '\n' text
  simp [lines, hsplit]

theorem lines_cons_newline (rest : List Char) : lines ('\n' :: rest) = [] :: lines rest := by
  simp [lines, splitOnChar, dropReturn]

theorem lines_cons {c : Char} (hc : c ≠ '\n') (rest : List Char) :
    lines (c :: rest) =
      if c = '\r' ∧ (rest = [] ∨ rest.head? = some '\n') then lines rest
      else (lines rest).modifyHead (c :: ·) := by
  obtain ⟨pieces, hsplit⟩ := splitOnChar_eq_cons '\n' rest
  have hfirst : lines (c :: rest) =
      dropReturn (c :: rest.takeWhile (· ≠ '\n')) :: pieces.map dropReturn := by
    simp [lines, splitOnChar, hc, hsplit]
  have hrest : lines rest = dropReturn (rest.takeWhile (· ≠ '\n')) :: pieces.map dropReturn := by
    simp [lines, hsplit]
  rw [hfirst, hrest, dropReturn_cons]
  by_cases hbreak : c = '\r' ∧ (rest = [] ∨ rest.head? = some '\n')
  · have hempty : rest.takeWhile (· ≠ '\n') = [] := takeWhile_eq_nil_iff_lineBreak.mpr hbreak.2
    rw [if_pos hbreak, if_pos ⟨hbreak.1, hempty⟩, hempty]
    rfl
  · have hkept : ¬ (c = '\r' ∧ rest.takeWhile (· ≠ '\n') = []) := by
      rwa [takeWhile_eq_nil_iff_lineBreak]
    rw [if_neg hbreak, if_neg hkept, List.modifyHead_cons]

/-! ## Lines and line feeds make up the text -/

theorem intercalate_modifyHead_cons {α : Type} (sep : List α) (a : α) {pieces : List (List α)}
    (hne : pieces ≠ []) :
    sep.intercalate (pieces.modifyHead (a :: ·)) = a :: sep.intercalate pieces := by
  match pieces with
  | [] => exact absurd rfl hne
  | [piece] => simp
  | piece :: second :: others =>
    rw [List.modifyHead_cons, List.intercalate_cons_cons, List.intercalate_cons_cons]
    simp

theorem intercalate_lines (text : List Char) :
    ['\n'].intercalate (lines text) = withoutReturns text := by
  induction text with
  | nil => rfl
  | cons c rest ih =>
    by_cases hc : c = '\n'
    · obtain ⟨first, others, hrest⟩ := List.exists_cons_of_ne_nil (lines_ne_nil rest)
      rw [hc, lines_cons_newline, hrest, List.intercalate_cons_cons, ← hrest, ih]
      simp [withoutReturns]
    · rw [lines_cons hc, withoutReturns]
      split
      · exact ih
      · rw [intercalate_modifyHead_cons _ _ (lines_ne_nil rest), ih]

/-! ## Other line breaks -/

theorem lines_withReturns {text : List Char} (h : '\r' ∉ text) :
    lines (withReturns text) = lines text := by
  induction text with
  | nil => rfl
  | cons c rest ih =>
    simp only [List.mem_cons, not_or] at h
    have hrest : lines (withReturns rest) = lines rest := ih h.2
    by_cases hc : c = '\n'
    · -- The carriage return before the line feed belongs to the line break.
      have htext : withReturns (c :: rest) = '\r' :: '\n' :: withReturns rest := by
        simp [withReturns, hc]
      rw [htext, hc, lines_cons (by decide), if_pos (by simp), lines_cons_newline,
        lines_cons_newline, hrest]
    · have htext : withReturns (c :: rest) = c :: withReturns rest := by
        simp [withReturns, hc]
      have hreturn : c ≠ '\r' := Ne.symm h.1
      rw [htext, lines_cons hc, lines_cons hc, hrest]
      simp [hreturn]

/-! ## The line at an offset -/

theorem lineAt_takeWhile {before rest done front : List Char} (hbefore : before = done ++ front)
    (hdone : done = [] ∨ ∃ earlier, done = earlier ++ ['\n'])
    (hfree : '\n' ∉ front ++ rest.takeWhile (· ≠ '\n')) :
    LineAt before rest (front ++ rest.takeWhile (· ≠ '\n')) := by
  refine ⟨done, front, rest.takeWhile (· ≠ '\n'), rest.dropWhile (· ≠ '\n'), hbefore, ?_, rfl, hfree,
    hdone, ?_⟩
  · rw [List.takeWhile_append_dropWhile]
  · cases hlater : rest.dropWhile (· ≠ '\n') with
    | nil => exact .inl rfl
    | cons c others =>
      have hhead : c ∈ (rest.dropWhile (· ≠ '\n')).head? := by rw [hlater, List.head?_cons]; rfl
      obtain rfl : c = '\n' := by simpa using eq_false_of_mem_head?_dropWhile hhead
      exact .inr ⟨others, rfl⟩

theorem exists_lineAt (before rest : List Char) :
    ∃ line, LineAt before rest line ∧
      (lines (before ++ rest))[before.count '\n']? = some (dropReturn line) := by
  obtain ⟨done, front, hbefore, hdone, hpiece⟩ := exists_getElem?_splitOnChar '\n' before rest
  have hfree := not_mem_of_mem_splitOnChar (List.mem_of_getElem? hpiece)
  refine ⟨_, lineAt_takeWhile hbefore hdone hfree, ?_⟩
  rw [lines, List.getElem?_map, hpiece, Option.map_some]

/-! ## Sources -/

namespace Source

theorem ofText_withReturns {text : String} (h : '\r' ∉ text.toList) :
    ofText (String.ofList (withReturns text.toList)) = ofText text := by
  rw [ofText, ofText, String.toList_ofList, lines_withReturns h]

/-- A text is cut into lines exactly.  There is one line more than there are line feeds, no line has one
    in it, and with line feeds between them the lines are the text again, up to the carriage returns
    that belong to line breaks.  The line of an offset is numbered by the line feeds before it.  So
    line breaks may be written with carriage returns or without: lines and outlines stay the same. -/
theorem lines_cut_exactly (text : String) :
    (ofText text).size = text.toList.count '\n' + 1 ∧
    (∀ line ∈ (ofText text).lines, '\n' ∉ line.toList) ∧
    ("\n".intercalate (ofText text).lines).toList = withoutReturns text.toList ∧
    (∀ before rest, text.toList = before ++ rest →
      ∃ line, LineAt before rest line ∧
        (ofText text).line? (before.count '\n') = some (String.ofList (dropReturn line))) ∧
    ('\r' ∉ text.toList →
      (∀ i, (ofText (String.ofList (withReturns text.toList))).line? i = (ofText text).line? i) ∧
      ∀ symbols, Outline.render (ofText (String.ofList (withReturns text.toList))) symbols =
        Outline.render (ofText text) symbols) := by
  refine ⟨size_ofText text, ?_, ?_, ?_, ?_⟩
  · intro line hline
    obtain ⟨i, hi⟩ := List.mem_iff_getElem?.mp hline
    exact newline_not_mem_line hi
  · rw [String.toList_intercalate, ofText, List.map_map]
    have hsame : (String.toList ∘ String.ofList) = id := funext fun _ => String.toList_ofList
    rw [hsame, List.map_id]
    exact intercalate_lines text.toList
  · intro before rest htext
    obtain ⟨line, hat, hline⟩ := exists_lineAt before rest
    refine ⟨line, hat, ?_⟩
    rw [line?, ofText, htext, List.getElem?_map, hline, Option.map_some]
  · intro hreturn
    rw [ofText_withReturns hreturn]
    exact ⟨fun i => rfl, fun symbols => rfl⟩

/-- An offset in the second line of three, and a method on that line. -/
theorem lines_cut_exactly_method :
    '\r' ∉ "class A\n  int f()\n".toList ∧
    "class A\n  int f()\n".toList = "class A\n  in".toList ++ "t f()\n".toList ∧
    (∃ line, LineAt "class A\n  in".toList "t f()\n".toList line ∧
      (ofText "class A\n  int f()\n").line? 1 = some (String.ofList (dropReturn line))) ∧
    (ofText "class A\r\n  int f()\r\n").line? 1 = some "  int f()" ∧
    Outline.render (ofText "class A\r\n  int f()\r\n") [⟨"f", .method, 1, []⟩] =
      .ok "Method f: int\n" := by
  have hreturn : '\r' ∉ "class A\n  int f()\n".toList := by decide
  have htext : "class A\n  int f()\n".toList = "class A\n  in".toList ++ "t f()\n".toList := rfl
  have hbreaks : "class A\r\n  int f()\r\n" =
      String.ofList (withReturns "class A\n  int f()\n".toList) := rfl
  obtain ⟨-, -, -, hoffset, hsame⟩ := lines_cut_exactly "class A\n  int f()\n"
  obtain ⟨hline, hrender⟩ := hsame hreturn
  refine ⟨hreturn, htext, hoffset _ _ htext, ?_, ?_⟩
  · rw [hbreaks, hline]
    rfl
  · rw [hbreaks, hrender]
    rfl

end Source

end CodeOutline.Text
