import CodeOutline.Text.Pattern

/-! # Matches of patterns

`Pattern.ends` lists the ways to match a pattern in order of preference.  Each of them is a match
in the sense of `Pattern.Matches`, which knows no preference, and what a match leaves is always an
end of the text.
-/

namespace CodeOutline.Text.Pattern

/-! ## The parts of `ends` -/

theorem eq_append_of_dropFront {front text rest : List Char}
    (h : dropFront front text = some rest) : text = front ++ rest := by
  induction front generalizing text with
  | nil => simpa [dropFront] using h
  | cons a front ih =>
    cases text with
    | nil => simp [dropFront] at h
    | cons c text =>
      simp only [dropFront] at h
      split at h
      next hac => rw [hac, ih h, List.cons_append]
      next => cases h

theorem dropFront_append (front rest : List Char) : dropFront front (front ++ rest) = some rest := by
  induction front with
  | nil => rfl
  | cons a front ih => rw [List.cons_append, dropFront, if_pos rfl, ih]

theorem dropFront_eq_none {a c : Char} (front text : List Char) (h : a ≠ c) :
    dropFront (a :: front) (c :: text) = none := by
  rw [dropFront, if_neg h]

/-- A run ends behind characters of its class, or where an earlier run has ended. -/
theorem mem_runEnds {p : Char → Bool} {later : List (List Char)} {text rest : List Char}
    (h : rest ∈ runEnds p later text) :
    rest ∈ later ∨ ∃ front, (∀ c ∈ front, p c = true) ∧ text = front ++ rest := by
  induction text generalizing later with
  | nil =>
    rcases List.mem_cons.mp h with rfl | hlater
    · exact .inr ⟨[], by simp, rfl⟩
    · exact .inl hlater
  | cons c text ih =>
    simp only [runEnds] at h
    split at h
    next hc =>
      rcases ih h with hlater | ⟨front, hfront, rfl⟩
      · -- The end in front of `c` has been put before the earlier ones.
        rcases List.mem_cons.mp hlater with rfl | hlater
        · exact .inr ⟨[], by simp, rfl⟩
        · exact .inl hlater
      · exact .inr ⟨c :: front, by simpa [hc] using hfront, rfl⟩
    next =>
      rcases List.mem_cons.mp h with rfl | hlater
      · exact .inr ⟨[], by simp, rfl⟩
      · exact .inl hlater

theorem matches_of_mem_manyEnds {item : Pattern} {step : List Char → List (List Char)}
    (sound : ∀ text rest, rest ∈ step text → item.Matches text rest) {n : Nat}
    {text rest : List Char} (h : rest ∈ manyEnds step n text) : (many item).Matches text rest := by
  induction n generalizing text with
  | zero =>
    obtain rfl : rest = text := by simpa [manyEnds] using h
    exact .manyStop
  | succ n ih =>
    simp only [manyEnds, List.mem_append, List.mem_flatMap, List.mem_singleton] at h
    rcases h with ⟨mid, hmid, hrest⟩ | rfl
    · exact .manyStep (sound text mid hmid) (ih hrest)
    · exact .manyStop

/-! ## Matches -/

/-- Every listed way to match a pattern is one. -/
theorem matches_of_mem_ends {pattern : Pattern} {text rest : List Char}
    (h : rest ∈ pattern.ends text) : pattern.Matches text rest := by
  induction pattern generalizing text rest with
  | empty =>
    obtain rfl : rest = text := by simpa [ends] using h
    exact .empty
  | one p =>
    cases text with
    | nil => simp [ends] at h
    | cons c text =>
      simp only [ends] at h
      split at h
      next hc =>
        obtain rfl : rest = text := by simpa using h
        exact .one hc
      next => simp at h
  | run p =>
    rcases mem_runEnds h with hlater | ⟨front, hfront, rfl⟩
    · simp at hlater
    · exact .run hfront
  | span p =>
    obtain rfl : rest = text.dropWhile p := by simpa [ends] using h
    have hfront : ∀ c ∈ text.takeWhile p, p c = true := fun c hc =>
      List.all_eq_true.mp List.all_takeWhile c hc
    have hrest : ∀ c ∈ (text.dropWhile p).head?, p c = false := by
      intro c hc
      have := List.head?_dropWhile_not p text
      rw [Option.mem_def.mp hc] at this
      simpa using this
    have hsplit : text = text.takeWhile p ++ text.dropWhile p := List.takeWhile_append_dropWhile.symm
    rw [hsplit]
    simpa using Matches.span hfront hrest
  | exactly chars =>
    simp only [ends, Option.mem_toList] at h
    rw [eq_append_of_dropFront h]
    exact .exactly
  | seq first second ihFirst ihSecond =>
    simp only [ends, List.mem_flatMap] at h
    obtain ⟨mid, hmid, hrest⟩ := h
    exact .seq (ihFirst hmid) (ihSecond hrest)
  | either first second ihFirst ihSecond =>
    simp only [ends, List.mem_append] at h
    rcases h with hfirst | hsecond
    · exact .eitherLeft (ihFirst hfirst)
    · exact .eitherRight (ihSecond hsecond)
  | many item ih => exact matches_of_mem_manyEnds (fun _ _ => ih) h

/-- What a match leaves is an end of the text. -/
theorem Matches.suffix {pattern : Pattern} {text rest : List Char}
    (h : pattern.Matches text rest) : rest <:+ text := by
  induction h with
  | empty | manyStop => exact List.suffix_rfl
  | one _ => exact List.suffix_cons _ _
  | run _ | span _ _ | exactly => exact List.suffix_append _ _
  | seq _ _ ihFirst ihSecond => exact ihSecond.trans ihFirst
  | eitherLeft _ ih | eitherRight _ ih => exact ih
  | manyStep _ _ ihStep ihRest => exact ihRest.trans ihStep

theorem suffix_of_mem_ends {pattern : Pattern} {text rest : List Char}
    (h : rest ∈ pattern.ends text) : rest <:+ text :=
  (matches_of_mem_ends h).suffix

/-! ## All matches are listed -/

theorem mem_manyEnds_mono {step : List Char → List (List Char)} {n m : Nat} {text rest : List Char}
    (h : rest ∈ manyEnds step n text) (hle : n ≤ m) : rest ∈ manyEnds step m text := by
  induction n generalizing m text with
  | zero =>
    obtain rfl : rest = text := by simpa [manyEnds] using h
    cases m <;> simp [manyEnds]
  | succ n ih =>
    obtain ⟨m, rfl⟩ : ∃ k, m = k + 1 := ⟨m - 1, by omega⟩
    simp only [manyEnds, List.mem_append, List.mem_flatMap, List.mem_singleton] at h ⊢
    rcases h with ⟨mid, hmid, hrest⟩ | rfl
    · exact .inl ⟨mid, hmid, ih hrest (by omega)⟩
    · exact .inr rfl

/-- What is repeated in a pattern takes at least one character each time. -/
def Productive : Pattern → Prop
  | many item => item.Productive ∧ ∀ text rest, item.Matches text rest → rest.length < text.length
  | seq first second => first.Productive ∧ second.Productive
  | either first second => first.Productive ∧ second.Productive
  | _ => True

theorem mem_runEnds_of_later {p : Char → Bool} {later : List (List Char)} {text rest : List Char}
    (h : rest ∈ later) : rest ∈ runEnds p later text := by
  induction text generalizing later with
  | nil => exact List.mem_cons_of_mem _ h
  | cons c text ih =>
    simp only [runEnds]
    split
    · exact ih (List.mem_cons_of_mem _ h)
    · exact List.mem_cons_of_mem _ h

theorem mem_runEnds_append {p : Char → Bool} {later : List (List Char)} {front rest : List Char}
    (h : ∀ c ∈ front, p c = true) : rest ∈ runEnds p later (front ++ rest) := by
  induction front generalizing later with
  | nil =>
    cases rest with
    | nil => exact List.mem_cons_self
    | cons c rest =>
      rw [List.nil_append, runEnds]
      split
      · exact mem_runEnds_of_later List.mem_cons_self
      · exact List.mem_cons_self
  | cons c front ih =>
    rw [List.cons_append, runEnds, if_pos (h c List.mem_cons_self)]
    exact ih fun d hd => h d (List.mem_cons_of_mem c hd)

theorem dropWhile_span {p : Char → Bool} {front rest : List Char} (hfront : ∀ c ∈ front, p c = true)
    (hrest : ∀ c ∈ rest.head?, p c = false) : (front ++ rest).dropWhile p = rest := by
  rw [List.dropWhile_append_of_pos hfront]
  cases rest with
  | nil => rfl
  | cons c rest => simp [hrest c rfl]

/-- Every way to match a pattern is listed. -/
theorem mem_ends_of_matches {pattern : Pattern} {text rest : List Char}
    (h : pattern.Matches text rest) (hpattern : pattern.Productive) : rest ∈ pattern.ends text := by
  induction h with
  | empty => simp [ends]
  | one hc => simp [ends, hc]
  | run hfront => exact mem_runEnds_append hfront
  | span hfront hrest => simp [ends, dropWhile_span hfront hrest]
  | exactly => simp [ends, dropFront_append]
  | seq _ _ ihFirst ihSecond =>
    exact List.mem_flatMap.mpr ⟨_, ihFirst hpattern.1, ihSecond hpattern.2⟩
  | eitherLeft _ ih => exact List.mem_append_left _ (ih hpattern.1)
  | eitherRight _ ih => exact List.mem_append_right _ (ih hpattern.2)
  | manyStop =>
    rename_i text
    simp only [ends]
    cases text.length <;> simp [manyEnds]
  | @manyStep item text mid rest hitem _ ihItem ihMany =>
    -- The first round makes the text shorter, so that enough rounds are left for the others.
    have hshorter := hpattern.2 text mid hitem
    obtain ⟨n, hn⟩ : ∃ n, text.length = n + 1 := ⟨text.length - 1, by omega⟩
    simp only [ends, hn, manyEnds, List.mem_append, List.mem_flatMap]
    exact .inl ⟨mid, ihItem hpattern.1, mem_manyEnds_mono (ihMany hpattern) (by omega)⟩

/-! ## Matches of each pattern -/

theorem matches_empty_iff {text rest : List Char} : empty.Matches text rest ↔ text = rest :=
  ⟨fun h => by cases h; rfl, fun h => h ▸ .empty⟩

theorem matches_one_iff {p : Char → Bool} {text rest : List Char} :
    (one p).Matches text rest ↔ ∃ c, p c = true ∧ text = c :: rest := by
  constructor
  · rintro ⟨⟩
    exact ⟨_, by assumption, rfl⟩
  · rintro ⟨c, hc, rfl⟩
    exact .one hc

theorem matches_span_iff {p : Char → Bool} {text rest : List Char} :
    (span p).Matches text rest ↔ ∃ front, (∀ c ∈ front, p c = true) ∧ text = front ++ rest ∧
      ∀ c ∈ rest.head?, p c = false := by
  constructor
  · rintro ⟨⟩
    exact ⟨_, by assumption, rfl, by assumption⟩
  · rintro ⟨front, hfront, rfl, hrest⟩
    exact .span hfront hrest

theorem matches_exactly_iff {chars text rest : List Char} :
    (exactly chars).Matches text rest ↔ text = chars ++ rest :=
  ⟨fun h => by cases h; rfl, fun h => h ▸ .exactly⟩

theorem matches_seq_iff {first second : Pattern} {text rest : List Char} :
    (seq first second).Matches text rest ↔ ∃ mid, first.Matches text mid ∧ second.Matches mid rest := by
  constructor
  · rintro ⟨⟩
    exact ⟨_, by assumption, by assumption⟩
  · rintro ⟨mid, hfirst, hsecond⟩
    exact .seq hfirst hsecond

theorem matches_either_iff {first second : Pattern} {text rest : List Char} :
    (either first second).Matches text rest ↔ first.Matches text rest ∨ second.Matches text rest := by
  constructor
  · rintro ⟨⟩
    · exact .inl (by assumption)
    · exact .inr (by assumption)
  · rintro (h | h)
    · exact .eitherLeft h
    · exact .eitherRight h

end CodeOutline.Text.Pattern
