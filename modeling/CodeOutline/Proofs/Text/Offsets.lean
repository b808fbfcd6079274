import CodeOutline.Proofs.Text.Lines
import CodeOutline.Text.Basic

/-! # Offsets and lines

A piece of a text can be found in two ways: between two bytes, or on a line.  Here the two meet.  What
begins at a byte begins on the line whose number is that of the line feeds before the byte
(`exists_getElem?_splitOnChar`), and up to its own first line feed it stays on that line.

The lines of a text lack the carriage returns at their ends, so a stretch of a text need not be a
stretch of a line.  A trimmed one is: a carriage return is a blank and does not stand at its end
(`isInfix_dropReturn`).
-/

namespace CodeOutline.Text

/-! ## The piece at an offset -/

/-- A text ends in a piece that is not cut yet, behind the last cut or from the beginning on. -/
theorem exists_last_piece (sep : Char) (text : List Char) :
    ∃ done front, text = done ++ front ∧ sep ∉ front ∧
      (done = [] ∨ ∃ earlier, done = earlier ++ [sep]) := by
  by_cases hsep : sep ∈ text
  · -- The first cut from behind is the last one.
    obtain ⟨front, earlier, heq, hfront⟩ := List.eq_append_cons_of_mem (List.mem_reverse.mpr hsep)
    refine ⟨earlier.reverse ++ [sep], front.reverse, ?_, by simpa using hfront, .inr ⟨_, rfl⟩⟩
    rw [← List.reverse_reverse text, heq]
    simp
  · exact ⟨[], text, rfl, hsep, .inl rfl⟩

/-- The piece that an offset falls in is numbered by the cuts before the offset.  It consists of what
    is before the offset from the last cut on, and of what is behind it up to the next cut. -/
theorem exists_getElem?_splitOnChar (sep : Char) (before rest : List Char) :
    ∃ done front, before = done ++ front ∧ (done = [] ∨ ∃ earlier, done = earlier ++ [sep]) ∧
      (splitOnChar sep (before ++ rest))[before.count sep]? =
        some (front ++ rest.takeWhile (· ≠ sep)) := by
  obtain ⟨done, front, rfl, hfront, hdone⟩ := exists_last_piece sep before
  refine ⟨done, front, rfl, hdone, ?_⟩
  have hpiece : (splitOnChar sep (front ++ rest))[0]? = some (front ++ rest.takeWhile (· ≠ sep)) := by
    have hfree : ∀ c ∈ front, decide (c ≠ sep) = true := by
      intro c hc
      simpa using fun heq : c = sep => hfront (heq ▸ hc)
    rw [← List.head?_eq_getElem?, head?_splitOnChar, List.takeWhile_append_of_pos hfree]
  have hcount : front.count sep = 0 := List.count_eq_zero.mpr hfront
  rcases hdone with rfl | ⟨earlier, rfl⟩
  · simpa [hcount] using hpiece
  · have hsplit : splitOnChar sep (earlier ++ [sep] ++ front ++ rest) =
        splitOnChar sep earlier ++ splitOnChar sep (front ++ rest) := by
      rw [← splitOnChar_append_cons]
      simp
    have hnumber : (earlier ++ [sep] ++ front).count sep = (splitOnChar sep earlier).length := by
      rw [length_splitOnChar]
      simp [hcount]
    rw [hsplit, hnumber, List.getElem?_append_right (Nat.le_refl _), Nat.sub_self]
    exact hpiece

/-! ## Stretches of a line -/

theorem takeWhile_isPrefix {p : Char → Bool} {own rest : List Char} (h : own <+: rest) :
    own.takeWhile p <+: rest.takeWhile p := by
  obtain ⟨more, rfl⟩ := h
  rw [List.takeWhile_append]
  split
  · exact (List.takeWhile_prefix p).trans (List.prefix_append own _)
  · exact List.prefix_rfl

theorem firstLine_isPrefix (text : List Char) : firstLine text <+: text.takeWhile (· ≠ '\n') := by
  have hhead := head?_splitOnChar '\n' text
  unfold firstLine
  split
  · exact List.nil_prefix
  · rename_i only heq
    rw [heq] at hhead
    cases hhead
    exact List.prefix_rfl
  · rename_i first others _ heq
    rw [heq] at hhead
    cases hhead
    exact dropReturn_isPrefix _

/-- A stretch that does not end in a carriage return keeps clear of the one at the end of a line. -/
theorem isInfix_dropReturn {part line : List Char} (h : part <:+: line)
    (hlast : ∀ c ∈ part.getLast?, isBlank c = false) : part <:+: dropReturn line := by
  unfold dropReturn
  split
  · rename_i front heq
    obtain rfl : line = front.reverse ++ ['\r'] := by
      rw [← List.reverse_cons, ← heq, List.reverse_reverse]
    rcases List.infix_concat_iff.mp h with hend | hinside
    · rcases List.suffix_concat_iff.mp hend with rfl | ⟨more, rfl, -⟩
      · exact List.nil_infix
      · exact absurd (hlast '\r' (by simp)) (by decide)
    · exact hinside
  · exact h

/-- The first line of what begins at an offset, without blanks around it, is a stretch of the line that
    the offset is in. -/
theorem exists_line_of_offset (before : List Char) {own rest : List Char} (h : own <+: rest) :
    ∃ line, (lines (before ++ rest))[before.count '\n']? = some line ∧
      trim (firstLine own) <:+: line := by
  obtain ⟨-, front, -, -, hpiece⟩ := exists_getElem?_splitOnChar '\n' before rest
  refine ⟨_, by rw [lines, List.getElem?_map, hpiece, Option.map_some], ?_⟩
  apply isInfix_dropReturn
  · have hfirst : firstLine own <+: rest.takeWhile (· ≠ '\n') :=
      (firstLine_isPrefix own).trans (takeWhile_isPrefix h)
    exact (trim_isInfix _).trans (hfirst.isInfix.trans (List.suffix_append front _).isInfix)
  · exact fun c hc => isBlank_of_mem_getLast?_trim hc

/-! ## Bytes -/

theorem eq_append_of_dropBytes {n : Nat} {text rest : List Char} (h : dropBytes n text = some rest) :
    ∃ before, text = before ++ rest ∧ (before.flatMap String.utf8EncodeChar).length = n := by
  fun_induction dropBytes n text with
  | case1 text =>
    cases h
    exact ⟨[], rfl, rfl⟩
  | case2 => cases h
  | case3 n c text hsize ih =>
    obtain ⟨before, rfl, hbefore⟩ := ih h
    refine ⟨c :: before, rfl, ?_⟩
    rw [List.flatMap_cons, List.length_append, String.length_utf8EncodeChar, hbefore]
    omega
  | case4 => cases h

theorem isPrefix_of_takeBytes {n : Nat} {text own : List Char} (h : takeBytes n text = some own) :
    own <+: text := by
  fun_induction takeBytes n text generalizing own with
  | case1 =>
    cases h
    exact List.nil_prefix
  | case2 => cases h
  | case3 n c text hsize ih =>
    obtain ⟨more, hmore, rfl⟩ := Option.map_eq_some_iff.mp h
    exact List.prefix_cons_inj c |>.mpr (ih hmore)
  | case4 => cases h

theorem newlinesBefore_append {text : String} {before rest : List Char}
    (h : text.toList = before ++ rest) :
    newlinesBefore text (before.flatMap String.utf8EncodeChar).length = before.count '\n' := by
  rw [newlinesBefore, toUTF8_eq_flatMap, h, List.flatMap_append, List.take_left,
    count_newlineByte_flatMap]

/-- The first line of the text between two bytes, without blanks around it, is a stretch of the line
    whose number is that of the line feeds before the first byte. -/
theorem exists_line_of_span? {text : String} {start stop : Nat} {own : List Char}
    (h : span? text.toList start stop = some own) :
    ∃ line, (Source.ofText text).line? (newlinesBefore text start) = some line ∧
      trim (firstLine own) <:+: line.toList := by
  obtain ⟨rest, hrest, hown⟩ := Option.bind_eq_some_iff.mp h
  obtain ⟨before, htext, rfl⟩ := eq_append_of_dropBytes hrest
  obtain ⟨line, hline, hinside⟩ := exists_line_of_offset before (isPrefix_of_takeBytes hown)
  refine ⟨String.ofList line, ?_, by rwa [String.toList_ofList]⟩
  rw [newlinesBefore_append htext, Source.line?, Source.ofText, htext, List.getElem?_map, hline,
    Option.map_some]

end CodeOutline.Text
