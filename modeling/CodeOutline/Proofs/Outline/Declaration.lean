import CodeOutline.Outline.Declaration
import CodeOutline.Proofs.Text.Lines
import CodeOutline.Proofs.Text.Pattern
import CodeOutline.Proofs.Text.Words

/-! # What is taken from a declaration line

The visibility is a matter of the words of the line, not of the letters in them
(`visibility_decided_by_words`).

Whatever shape finds a return type, the type is a piece of the line it was found in, so it has no
character that the line has not.
-/

namespace CodeOutline.Declaration

/-! ## Visibility -/

theorem visibility_cases (line : String) :
    visibility line = "private " ∨ visibility line = "public " ∨ visibility line = "" := by
  unfold visibility
  split
  · exact .inl rfl
  · split
    · exact .inr (.inl rfl)
    · exact .inr (.inr rfl)

/-- A line is private if `private` is one of its words, else public if `public` is one, and neither
    otherwise.  The words of a line are its maximal runs of word characters. -/
theorem visibility_decided_by_words (line : String) :
    (∀ ws, Text.WordRuns line.toList ws ↔ Text.words line.toList = ws) ∧
    (visibility line = "private " ↔ "private".toList ∈ Text.words line.toList) ∧
    (visibility line = "public " ↔
      "private".toList ∉ Text.words line.toList ∧ "public".toList ∈ Text.words line.toList) ∧
    (visibility line = "" ↔
      "private".toList ∉ Text.words line.toList ∧ "public".toList ∉ Text.words line.toList) := by
  have hprivate : Text.hasWholeWord "private" line = true ↔ "private".toList ∈ Text.words line.toList :=
    Text.hasWholeWord_iff (by simp) (List.all_eq_true.mp rfl) line
  have hpublic : Text.hasWholeWord "public" line = true ↔ "public".toList ∈ Text.words line.toList :=
    Text.hasWholeWord_iff (by simp) (List.all_eq_true.mp rfl) line
  refine ⟨fun ws => Text.wordRuns_iff, ?_⟩
  rw [visibility, ← hprivate, ← hpublic]
  cases Text.hasWholeWord "private" line with
  | true => simp
  | false => cases Text.hasWholeWord "public" line <;> simp

/-- Letters of other words around it do not make a word. -/
example : visibility "is_private publicité public" = "public " := by decide

/-! ## Return types -/

theorem Shape.mem_of_mem_captureHere {shape : Shape} {text type : List Char} {c : Char}
    (h : shape.captureHere text = some type) (hc : c ∈ type) : c ∈ text := by
  obtain ⟨fromType, hfrom, hfound⟩ := List.exists_of_findSome?_eq_some h
  obtain ⟨rest, _, htaken⟩ := List.exists_of_findSome?_eq_some hfound
  split at htaken
  · cases htaken
  · cases htaken
    exact (Text.Pattern.suffix_of_mem_ends hfrom).subset (List.mem_of_mem_take hc)

theorem Shape.mem_of_mem_captureAnywhere {shape : Shape} {text type : List Char} {c : Char}
    (h : shape.captureAnywhere text = some type) (hc : c ∈ type) : c ∈ text := by
  induction text with
  | nil => exact shape.mem_of_mem_captureHere h hc
  | cons d rest ih =>
    rw [captureAnywhere, Option.or_eq_some_iff] at h
    rcases h with hhere | ⟨_, hlater⟩
    · exact shape.mem_of_mem_captureHere hhere hc
    · exact List.mem_cons_of_mem d (ih hlater)

theorem Shape.mem_of_mem_capture {shape : Shape} {line type : List Char} {c : Char}
    (h : shape.capture line = some type) (hc : c ∈ type) : c ∈ line := by
  simp only [capture, Option.filter_eq_some_iff, Option.map_eq_some_iff] at h
  obtain ⟨⟨found, hfound, rfl⟩, _⟩ := h
  have hc := Text.mem_of_mem_trim hc
  split at hfound
  · exact shape.mem_of_mem_captureHere hfound hc
  · exact shape.mem_of_mem_captureAnywhere hfound hc

/-- A return type is made of characters of its declaration line. -/
theorem mem_of_mem_returnType {line type : String} {c : Char}
    (h : returnType? line = some type) (hc : c ∈ type.toList) : c ∈ line.toList := by
  obtain ⟨chars, hchars, rfl⟩ := Option.map_eq_some_iff.mp h
  rw [String.toList_ofList] at hc
  obtain ⟨shape, _, hshape⟩ := List.mem_filterMap.mp (List.mem_of_find?_eq_some hchars)
  exact shape.mem_of_mem_capture hshape hc

end CodeOutline.Declaration
