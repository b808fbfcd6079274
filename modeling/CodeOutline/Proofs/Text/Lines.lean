import CodeOutline.Text.Basic

/-! # Lines and line feeds

How the lines of a text relate to its line feeds: there is one line more than there are line
feeds, no line has one in it, and a text written line by line is cut into these lines again.

A syntax tree says where a node stands by a byte and by a row, which counts the line feeds before
that byte.  `newlinesBefore` is that count over the UTF-8 form of a text.  It never exceeds the
number of line feeds among the characters, since a line feed is the only character with the byte
of a line feed in its encoding; so a row that is counted this way is always the number of a line.
-/

namespace CodeOutline.Text

/-! ## Classes of characters, and the first of a list -/

theorem ne_of_class {p : Char → Bool} {c d : Char} (hc : p c = true) (hd : p d = false) : c ≠ d := by
  rintro rfl
  rw [hc] at hd
  cases hd

theorem mem_head?_of_isPrefix {α : Type} {front whole : List α} {a : α} (h : front <+: whole)
    (ha : a ∈ front.head?) : a ∈ whole.head? := by
  obtain ⟨back, rfl⟩ := h
  rw [List.head?_append, Option.mem_def.mp ha, Option.some_or]
  rfl

theorem eq_false_of_mem_head?_dropWhile {α : Type} {p : α → Bool} {list : List α} {a : α}
    (h : a ∈ (list.dropWhile p).head?) : p a = false := by
  have hnot := List.head?_dropWhile_not p list
  rwa [Option.mem_def.mp h] at hnot

/-! ## Cutting at a character -/

/-- Cutting a text at a character is what the library of lists calls splitting it there. -/
theorem splitOnChar_eq_splitOn (sep : Char) (text : List Char) :
    splitOnChar sep text = text.splitOn sep := by
  induction text with
  | nil => rfl
  | cons c rest ih =>
    simp only [splitOnChar, List.splitOn_cons_eq_if_modifyHead, beq_iff_eq, ih]
    split
    · rfl
    · cases h : rest.splitOn sep with
      | nil => exact absurd h (List.splitOn_ne_nil sep rest)
      | cons piece pieces => rfl

theorem length_splitOnChar (sep : Char) (text : List Char) :
    (splitOnChar sep text).length = text.count sep + 1 := by
  rw [splitOnChar_eq_splitOn]
  induction text with
  | nil => rfl
  | cons c rest ih =>
    rw [List.splitOn_cons_eq_if_modifyHead, List.count_cons]
    split
    · rw [List.length_cons, ih]
    · rw [List.length_modifyHead, ih, Nat.add_zero]

theorem splitOnChar_append_cons (sep : Char) (text rest : List Char) :
    splitOnChar sep (text ++ sep :: rest) = splitOnChar sep text ++ splitOnChar sep rest := by
  simp only [splitOnChar_eq_splitOn, List.splitOn_append_cons_self]

theorem splitOnChar_of_not_mem {sep : Char} {text : List Char} (h : sep ∉ text) :
    splitOnChar sep text = [text] := by
  rw [splitOnChar_eq_splitOn, List.splitOn_eq_singleton h]

theorem head?_splitOnChar (sep : Char) (text : List Char) :
    (splitOnChar sep text).head? = some (text.takeWhile (· ≠ sep)) := by
  induction text with
  | nil => rfl
  | cons c rest ih =>
    simp only [splitOnChar]
    split
    · simp_all
    · rename_i hc
      cases hrest : splitOnChar sep rest <;> simp_all

/-- The pieces are free of the character the text is cut at. -/
theorem not_mem_of_mem_splitOnChar {sep : Char} {text piece : List Char}
    (h : piece ∈ splitOnChar sep text) : sep ∉ piece := by
  induction text generalizing piece with
  | nil =>
    obtain rfl : piece = [] := by simpa [splitOnChar] using h
    exact List.not_mem_nil
  | cons c rest ih =>
    simp only [splitOnChar] at h
    split at h
    · rcases List.mem_cons.mp h with rfl | hrest
      · exact List.not_mem_nil
      · exact ih hrest
    · rename_i hc
      split at h
      · obtain rfl : piece = [c] := by simpa using h
        simpa using Ne.symm hc
      · rename_i first others heq
        rcases List.mem_cons.mp h with rfl | hothers
        · have hfirst : sep ∉ first := ih (heq ▸ List.mem_cons_self)
          simp [Ne.symm hc, hfirst]
        · exact ih (heq ▸ List.mem_cons_of_mem _ hothers)

/-- Texts that are each followed by the character are cut out again; behind the last one nothing
    is left. -/
theorem splitOnChar_flatMap {α : Type} {sep : Char} {items : List α} {write : α → List Char}
    (h : ∀ item ∈ items, sep ∉ write item) :
    splitOnChar sep (items.flatMap fun item => write item ++ [sep]) = items.map write ++ [[]] := by
  rw [splitOnChar_eq_splitOn]
  induction items with
  | nil => rfl
  | cons item rest ih =>
    simp only [List.flatMap_cons, List.append_assoc, List.map_cons, List.cons_append,
      List.nil_append]
    rw [List.splitOn_append_cons_self_of_not_mem (h item List.mem_cons_self),
      ih fun other hother => h other (List.mem_cons_of_mem _ hother)]

/-! ## Lines -/

/-- A line without its carriage return is the beginning of the line. -/
theorem dropReturn_isPrefix (line : List Char) : dropReturn line <+: line := by
  unfold dropReturn
  split
  · rename_i front heq
    refine ⟨['\r'], ?_⟩
    rw [← List.reverse_cons, ← heq, List.reverse_reverse]
  · exact List.prefix_rfl

theorem newline_not_mem_lines {text line : List Char} (h : line ∈ lines text) : '\n' ∉ line := by
  obtain ⟨piece, hpiece, rfl⟩ := List.mem_map.mp h
  exact fun hmem => not_mem_of_mem_splitOnChar hpiece ((dropReturn_isPrefix piece).subset hmem)

/-- The first line of a text has no line feed in it, whatever follows. -/
theorem newline_not_mem_firstLine (text : List Char) : '\n' ∉ firstLine text := by
  unfold firstLine
  split
  · exact List.not_mem_nil
  · rename_i only heq
    exact not_mem_of_mem_splitOnChar (heq ▸ List.mem_cons_self)
  · rename_i first others _ heq
    have hfirst : '\n' ∉ first := not_mem_of_mem_splitOnChar (heq ▸ List.mem_cons_self)
    exact fun hmem => hfirst ((dropReturn_isPrefix first).subset hmem)

namespace Source

theorem size_ofText (text : String) : (ofText text).size = text.toList.count '\n' + 1 := by
  simp [size, ofText, Text.lines, length_splitOnChar]

theorem newline_not_mem_line {text line : String} {i : Nat}
    (h : (ofText text).line? i = some line) : '\n' ∉ line.toList := by
  obtain ⟨chars, hchars, rfl⟩ := List.mem_map.mp (List.mem_of_getElem? h)
  rw [String.toList_ofList]
  exact newline_not_mem_lines hchars

end Source

/-! ## Trimming -/

theorem trim_isPrefix_dropWhile (text : List Char) : trim text <+: text.dropWhile isBlank := by
  rw [trim, trimEnd, ← List.reverse_suffix, List.reverse_reverse]
  exact List.dropWhile_suffix isBlank

/-- A trimmed text is a stretch of the text. -/
theorem trim_isInfix (text : List Char) : trim text <:+: text :=
  (trim_isPrefix_dropWhile text).isInfix.trans (List.dropWhile_suffix isBlank).isInfix

/-- Trimming only takes characters away. -/
theorem mem_of_mem_trim {text : List Char} {c : Char} (h : c ∈ trim text) : c ∈ text :=
  (trim_isInfix text).subset h

/-- A trimmed text does not begin with a blank. -/
theorem isBlank_of_mem_head?_trim {text : List Char} {c : Char} (h : c ∈ (trim text).head?) :
    isBlank c = false :=
  eq_false_of_mem_head?_dropWhile (mem_head?_of_isPrefix (trim_isPrefix_dropWhile text) h)

/-- A trimmed text does not end in a blank. -/
theorem isBlank_of_mem_getLast?_trim {text : List Char} {c : Char} (h : c ∈ (trim text).getLast?) :
    isBlank c = false := by
  rw [trim, trimEnd, List.getLast?_reverse] at h
  exact eq_false_of_mem_head?_dropWhile h

/-! ## Line feeds before a byte -/

/-- The byte of a line feed. -/
def newlineByte : UInt8 := 10

/-- The number of line feeds before the given byte of a text. -/
def newlinesBefore (text : String) (byte : Nat) : Nat :=
  (text.toUTF8.data.toList.take byte).count newlineByte

/-- A character of several bytes has none of the first 128 among them. -/
theorem le_of_mem_utf8EncodeChar {c : Char} {byte : UInt8} (hc : 127 < c.val.toNat)
    (h : byte ∈ String.utf8EncodeChar c) : 128 ≤ byte.toNat := by
  simp only [String.utf8EncodeChar, if_neg (Nat.not_le.mpr hc)] at h
  split at h
  · simp only [List.mem_cons, List.not_mem_nil, or_false] at h
    rcases h with rfl | rfl <;> rw [UInt8.toNat_ofNat'] <;> omega
  · split at h
    · simp only [List.mem_cons, List.not_mem_nil, or_false] at h
      rcases h with rfl | rfl | rfl <;> rw [UInt8.toNat_ofNat'] <;> omega
    · simp only [List.mem_cons, List.not_mem_nil, or_false] at h
      rcases h with rfl | rfl | rfl | rfl <;> rw [UInt8.toNat_ofNat'] <;> omega

/-- Of all characters only a line feed has the byte of a line feed in its encoding. -/
theorem count_newlineByte_utf8EncodeChar (c : Char) :
    (String.utf8EncodeChar c).count newlineByte = if c = '\n' then 1 else 0 := by
  by_cases hc : c.val.toNat ≤ 127
  · have same : UInt8.ofNat c.val.toNat = newlineByte ↔ c = '\n' := by
      rw [← UInt8.toNat_inj, UInt8.toNat_ofNat', Nat.mod_eq_of_lt (by omega), ← Char.toNat_inj]
      rfl
    simp only [String.utf8EncodeChar, if_pos hc, List.count_singleton, beq_iff_eq, same]
  · have hne : c ≠ '\n' := by
      rintro rfl
      exact hc (by decide)
    rw [if_neg hne, List.count_eq_zero]
    intro hmem
    have := le_of_mem_utf8EncodeChar (by omega) hmem
    exact absurd this (by decide)

theorem count_newlineByte_flatMap (text : List Char) :
    (text.flatMap String.utf8EncodeChar).count newlineByte = text.count '\n' := by
  induction text with
  | nil => rfl
  | cons c rest ih =>
    rw [List.flatMap_cons, List.count_append, ih, List.count_cons, count_newlineByte_utf8EncodeChar,
      Nat.add_comm]
    simp only [beq_iff_eq]

/-- The bytes of a text are those of its characters. -/
theorem toUTF8_eq_flatMap (text : String) :
    text.toUTF8.data.toList = text.toList.flatMap String.utf8EncodeChar := by
  rw [String.toUTF8_eq_toByteArray, ← String.utf8Encode_toList]
  simp [List.utf8Encode]

theorem fromUTF8?_eq_some_iff {bytes : ByteArray} {text : String} :
    String.fromUTF8? bytes = some text ↔ bytes = text.toUTF8 := by
  unfold String.fromUTF8?
  constructor
  · intro h
    split at h
    · rw [← Option.some.inj h]
      rfl
    · cases h
  · rintro rfl
    exact dif_pos text.isValidUTF8

theorem fromUTF8?_toUTF8 (text : String) : String.fromUTF8? text.toUTF8 = some text :=
  fromUTF8?_eq_some_iff.mpr rfl

/-- The row of a byte is the number of a line. -/
theorem newlinesBefore_lt_size (text : String) (byte : Nat) :
    newlinesBefore text byte < (Source.ofText text).size := by
  rw [Source.size_ofText, ← count_newlineByte_flatMap, ← toUTF8_eq_flatMap, Nat.lt_succ_iff]
  exact (List.take_sublist _ _).count_le _

end CodeOutline.Text
