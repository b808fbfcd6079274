import CodeOutline.Text.Word

/-! # Words of a text

The words of a text are its maximal runs of word characters.  `WordRuns` says so without saying how
they are found: a text is put together from words and other characters, and a word is followed by
another character or by the end.  There is one way to do this for each text, and `words` finds it
(`wordRuns_iff`).

The search for a whole word does not know any words.  It goes from character to character, and
remembers only whether it has just passed a word character.  While it is inside of a word nothing
can begin, so what it can still find is among the words behind the end of this one
(`hasWholeWordFrom_iff`).
-/

namespace CodeOutline.Text

/-- `WordRuns text ws`: the maximal runs of word characters of the text are the words `ws`. -/
inductive WordRuns : List Char → List (List Char) → Prop where
  | nil : WordRuns [] []
  | other {c : Char} {rest : List Char} {ws : List (List Char)} (hc : isWordChar c = false)
      (h : WordRuns rest ws) : WordRuns (c :: rest) ws
  | word {w rest : List Char} {ws : List (List Char)} (hne : w ≠ [])
      (hw : ∀ c ∈ w, isWordChar c = true) (hrest : startsInWord rest = false)
      (h : WordRuns rest ws) : WordRuns (w ++ rest) (w :: ws)

/-! ## The run at the front -/

theorem takeWhile_of_startsInWord_eq_false {text : List Char} (h : startsInWord text = false) :
    text.takeWhile isWordChar = [] := by
  cases text with
  | nil => rfl
  | cons c rest =>
    have hc : isWordChar c = false := h
    simp [hc]

theorem dropWhile_of_startsInWord_eq_false {text : List Char} (h : startsInWord text = false) :
    text.dropWhile isWordChar = text := by
  cases text with
  | nil => rfl
  | cons c rest =>
    have hc : isWordChar c = false := h
    simp [hc]

theorem startsInWord_dropWhile (text : List Char) :
    startsInWord (text.dropWhile isWordChar) = false := by
  induction text with
  | nil => rfl
  | cons c rest ih =>
    by_cases hc : isWordChar c = true
    · simpa [hc] using ih
    · simp [hc, startsInWord]

theorem takeWhile_append_of_word {w rest : List Char} (hw : ∀ c ∈ w, isWordChar c = true)
    (hrest : startsInWord rest = false) : (w ++ rest).takeWhile isWordChar = w := by
  rw [List.takeWhile_append_of_pos hw, takeWhile_of_startsInWord_eq_false hrest, List.append_nil]

theorem dropWhile_append_of_word {w rest : List Char} (hw : ∀ c ∈ w, isWordChar c = true)
    (hrest : startsInWord rest = false) : (w ++ rest).dropWhile isWordChar = rest := by
  rw [List.dropWhile_append_of_pos hw, dropWhile_of_startsInWord_eq_false hrest]

/-- What a boundary on both sides asks of a word at the front of a text: it is the whole run there. -/
theorem isPrefixOf_boundary_iff {w text : List Char} (hw : ∀ c ∈ w, isWordChar c = true) :
    w.isPrefixOf text = true ∧ startsInWord (text.drop w.length) = false ↔
      w = text.takeWhile isWordChar := by
  constructor
  · intro ⟨hfront, hrest⟩
    obtain ⟨rest, rfl⟩ := List.isPrefixOf_iff_prefix.mp hfront
    rw [List.drop_left] at hrest
    exact (takeWhile_append_of_word hw hrest).symm
  · intro heq
    have hsplit : text = w ++ text.dropWhile isWordChar := by
      rw [heq, List.takeWhile_append_dropWhile]
    constructor
    · rw [List.isPrefixOf_iff_prefix, hsplit]
      exact List.prefix_append w _
    · rw [hsplit, List.drop_left]
      exact startsInWord_dropWhile text

/-! ## Cutting a text into words -/

theorem words_cons_other {c : Char} (hc : isWordChar c = false) (rest : List Char) :
    words (c :: rest) = words rest := by
  simp [words, hc]

theorem words_of_startsInWord {text : List Char} (h : startsInWord text = true) :
    words text = text.takeWhile isWordChar :: words (text.dropWhile isWordChar) := by
  induction text with
  | nil => cases h
  | cons c rest ih =>
    have hc : isWordChar c = true := h
    cases hrest : startsInWord rest with
    | true => simp [words, hc, hrest, ih hrest]
    | false =>
      simp [words, hc, hrest, takeWhile_of_startsInWord_eq_false hrest,
        dropWhile_of_startsInWord_eq_false hrest]

theorem wordRuns_words : ∀ text : List Char, WordRuns text (words text)
  | [] => .nil
  | c :: rest => by
    cases hc : isWordChar c with
    | true =>
      have hfront : startsInWord (c :: rest) = true := hc
      have hbehind := wordRuns_words ((c :: rest).dropWhile isWordChar)
      rw [words_of_startsInWord hfront]
      have hruns := WordRuns.word (w := (c :: rest).takeWhile isWordChar) (by simp [hc])
        (List.all_eq_true.mp List.all_takeWhile) (startsInWord_dropWhile _) hbehind
      rwa [List.takeWhile_append_dropWhile] at hruns
    | false =>
      rw [words_cons_other hc]
      exact .other hc (wordRuns_words rest)
termination_by text => text.length
decreasing_by
  · simp
  · have hle := (List.dropWhile_sublist isWordChar (l := rest)).length_le
    rw [List.dropWhile_cons_of_pos hc, List.length_cons]
    omega

theorem WordRuns.words_eq {text : List Char} {ws : List (List Char)} (h : WordRuns text ws) :
    words text = ws := by
  induction h with
  | nil => rfl
  | other hc _ ih => rw [words_cons_other hc, ih]
  | @word w rest ws hne hw hrest _ ih =>
    have hfront : startsInWord (w ++ rest) = true := by
      cases w with
      | nil => exact absurd rfl hne
      | cons c w => exact hw c List.mem_cons_self
    rw [words_of_startsInWord hfront, takeWhile_append_of_word hw hrest,
      dropWhile_append_of_word hw hrest, ih]

theorem wordRuns_iff {text : List Char} {ws : List (List Char)} :
    WordRuns text ws ↔ words text = ws := by
  constructor
  · exact WordRuns.words_eq
  · intro h
    rw [← h]
    exact wordRuns_words text

/-! ## Searching for a whole word -/

section Search

variable {w : List Char} (hne : w ≠ []) (hw : ∀ c ∈ w, isWordChar c = true)
include hne hw

theorem hasWholeWordFrom_iff (touching : Bool) (text : List Char) :
    hasWholeWordFrom w touching text = true ↔
      w ∈ words (if touching then text.dropWhile isWordChar else text) := by
  induction text generalizing touching with
  | nil => cases touching <;> simp [hasWholeWordFrom, words, hne]
  | cons c rest ih =>
    simp only [hasWholeWordFrom, Bool.or_eq_true, Bool.and_eq_true, Bool.not_eq_true', ih]
    cases hc : isWordChar c with
    | false =>
      -- The word begins with a word character, so it does not begin here.
      have hnot : ¬ w.isPrefixOf (c :: rest) = true := by
        cases w with
        | nil => exact absurd rfl hne
        | cons d w =>
          have hd : isWordChar d = true := hw d List.mem_cons_self
          simp only [List.isPrefixOf_cons_cons, Bool.and_eq_true, beq_iff_eq, not_and]
          intro heq
          rw [heq, hc] at hd
          cases hd
      cases touching <;> simp [hnot, hc, words_cons_other hc]
    | true =>
      cases touching with
      | true => simp [hc]
      | false =>
        have hfront : startsInWord (c :: rest) = true := hc
        have hhere : w.isPrefixOf (c :: rest) = true ∧
            startsInWord ((c :: rest).drop w.length) = false ↔
              w = (c :: rest).takeWhile isWordChar := isPrefixOf_boundary_iff hw
        have hbehind : (c :: rest).dropWhile isWordChar = rest.dropWhile isWordChar :=
          List.dropWhile_cons_of_pos hc
        simp only [true_and, hhere, Bool.false_eq_true, if_true, if_false]
        rw [words_of_startsInWord hfront, List.mem_cons, hbehind]

end Search

theorem hasWholeWord_iff {w : String} (hne : w.toList ≠ [])
    (hw : ∀ c ∈ w.toList, isWordChar c = true) (text : String) :
    hasWholeWord w text = true ↔ w.toList ∈ words text.toList :=
  hasWholeWordFrom_iff hne hw false text.toList

end CodeOutline.Text
