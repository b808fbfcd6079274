import CodeOutline.Proofs.Outline.Tokens
import CodeOutline.Proofs.Text.Lines

/-! # Shapes without second thoughts

A shape allows each of its repetitions to stop early, and a reader that backtracks tries these ways when
the longest one leads to no match.  The shapes here are written with repetitions that always take all they
can.  `loosen` gives the repetitions their choice back, and it captures the same types
(`Shape.captureHere_eq_backtracking`).

That is so because of the characters that patterns begin with.  Where a pattern may stop early at a
character (`GoesOn`), what follows it cannot begin with this character (`Definite`).
-/

namespace CodeOutline.Text.Pattern

/-! ## Patterns that backtrack -/

/-- The pattern whose repetitions of a class may stop anywhere. -/
def loosen : Pattern → Pattern
  | span p => run p
  | seq first second => seq first.loosen second.loosen
  | either first second => either first.loosen second.loosen
  | many item => many item.loosen
  | pattern => pattern

/-- The pattern can take nothing. -/
def nullable : Pattern → Bool
  | empty | run _ | span _ | many _ => true
  | one _ => false
  | exactly chars => chars.isEmpty
  | seq first second => first.nullable && second.nullable
  | either first second => first.nullable || second.nullable

/-- The pattern can take something that begins with the character. -/
def opens : Pattern → Char → Bool
  | empty, _ => false
  | one p, c | run p, c | span p, c => p c
  | exactly chars, c => chars.head? == some c
  | seq first second, c => first.opens c || first.nullable && second.opens c
  | either first second, c => first.opens c || second.opens c
  | many item, c => item.opens c

/-- The pattern can end with a repetition that would take the character as well. -/
def GoesOn : Pattern → Char → Prop
  | span p, c => p c = true
  | seq first second, c => second.GoesOn c ∨ second.nullable = true ∧ first.GoesOn c
  | either first second, c => first.GoesOn c ∨ second.GoesOn c
  | many item, c => item.GoesOn c
  | _, _ => False

/-- No repetition in the pattern stops early where the pattern goes on. -/
def Definite : Pattern → Prop
  | seq first second =>
    first.Definite ∧ second.Definite ∧ ∀ c, first.GoesOn c → second.opens c = false
  | either first second => first.Definite ∧ second.Definite
  | many item => item.Definite ∧ ∀ c, item.GoesOn c → item.opens c = false
  | _ => True

/-- A pattern that cannot begin with the next character takes nothing. -/
theorem Matches.eq_of_opens {pattern : Pattern} {text rest : List Char} (h : pattern.Matches text rest)
    (hopens : ∀ c ∈ text.head?, pattern.opens c = false) : rest = text ∧ pattern.nullable = true := by
  induction h with
  | empty | manyStop => exact ⟨rfl, rfl⟩
  | one hc => exact absurd (hopens _ rfl) (by simp [opens, hc])
  | @run p front rest hfront | @span p front rest hfront _ =>
    cases front with
    | nil => exact ⟨rfl, rfl⟩
    | cons c front => exact absurd (hopens c rfl) (by simp [opens, hfront c List.mem_cons_self])
  | @exactly chars rest =>
    cases chars with
    | nil => exact ⟨rfl, rfl⟩
    | cons c chars => exact absurd (hopens c rfl) (by simp [opens])
  | seq _ _ ihFirst ihSecond =>
    -- The first pattern takes nothing, so that the second one stands before the same character.
    simp only [opens, Bool.or_eq_false_iff] at hopens
    obtain ⟨rfl, hfirst⟩ := ihFirst fun c hc => (hopens c hc).1
    obtain ⟨rfl, hsecond⟩ := ihSecond fun c hc => by simpa [hfirst] using (hopens c hc).2
    exact ⟨rfl, by simp [nullable, hfirst, hsecond]⟩
  | eitherLeft _ ih =>
    simp only [opens, Bool.or_eq_false_iff] at hopens
    obtain ⟨rfl, hleft⟩ := ih fun c hc => (hopens c hc).1
    exact ⟨rfl, by simp [nullable, hleft]⟩
  | eitherRight _ ih =>
    simp only [opens, Bool.or_eq_false_iff] at hopens
    obtain ⟨rfl, hright⟩ := ih fun c hc => (hopens c hc).2
    exact ⟨rfl, by simp [nullable, hright]⟩
  | manyStep _ _ ihItem ihMany =>
    obtain ⟨rfl, -⟩ := ihItem hopens
    exact ⟨(ihMany hopens).1, rfl⟩

theorem ends_eq_nil {pattern : Pattern} {c : Char} (hopens : pattern.opens c = false)
    (hnullable : pattern.nullable = false) (rest : List Char) : pattern.ends (c :: rest) = [] := by
  refine List.eq_nil_iff_forall_not_mem.mpr fun other hother => ?_
  obtain ⟨-, htrue⟩ := (matches_of_mem_ends hother).eq_of_opens (by simpa using hopens)
  rw [hnullable] at htrue
  cases htrue

/-! ## The ways that lead on

What follows a pattern is given by `next`, the outcome of each way to match it.  It has none where the pattern
could have gone on. -/

/-- Backtracking in the pattern leads to nothing that is not found without it. -/
def Settled (pattern : Pattern) : Prop :=
  ∀ {α : Type} {next : List Char → Option α}, (∀ c rest, pattern.GoesOn c → next (c :: rest) = none) →
    ∀ text, (pattern.loosen.ends text).findSome? next = (pattern.ends text).findSome? next

section Next

variable {α : Type} {next : List Char → Option α}

theorem findSome?_cons_or (first : List Char) (later : List (List Char)) :
    (first :: later).findSome? next = (next first).or (later.findSome? next) := by
  cases h : next first <;> simp [h]

theorem findSome?_flatMap (step : List Char → List (List Char)) (texts : List (List Char)) :
    (texts.flatMap step).findSome? next = texts.findSome? fun text => (step text).findSome? next := by
  induction texts with
  | nil => rfl
  | cons text texts ih =>
    rw [List.flatMap_cons, List.findSome?_append, ih]
    cases h : (step text).findSome? next <;> simp [h]

theorem eq_none_of_dropWhile {p : Char → Bool}
    (hnext : ∀ c rest, p c = true → next rest = none → next (c :: rest) = none) {text : List Char}
    (h : next (text.dropWhile p) = none) : next text = none := by
  induction text with
  | nil => exact h
  | cons c rest ih =>
    cases hc : p c with
    | true => exact hnext c rest hc (ih (by simpa [hc] using h))
    | false => simpa [hc] using h

/-- A run that stops early leads nowhere if it does not when it stops one character later. -/
theorem findSome?_runEnds {p : Char → Bool}
    (hnext : ∀ c rest, p c = true → next rest = none → next (c :: rest) = none)
    (later : List (List Char)) (text : List Char) :
    (runEnds p later text).findSome? next = (next (text.dropWhile p)).or (later.findSome? next) := by
  induction text generalizing later with
  | nil => exact findSome?_cons_or [] later
  | cons c rest ih =>
    cases hc : p c with
    | false => simpa [runEnds, hc] using findSome?_cons_or (c :: rest) later
    | true =>
      rw [runEnds, if_pos hc, ih, findSome?_cons_or, List.dropWhile_cons_of_pos hc]
      cases hrest : next (rest.dropWhile p) with
      | some => rfl
      | none =>
        -- The longest run leads nowhere, and so do all shorter ones.
        rw [hnext c rest hc (eq_none_of_dropWhile hnext hrest), Option.none_or]

theorem findSome?_manyEnds {item : Pattern} (hitem : item.Settled)
    (hopens : ∀ c, item.GoesOn c → item.opens c = false)
    (hnext : ∀ c rest, item.GoesOn c → next (c :: rest) = none) (n : Nat) (text : List Char) :
    (manyEnds (fun text => item.loosen.ends text) n text).findSome? next =
      (manyEnds (fun text => item.ends text) n text).findSome? next := by
  induction n generalizing text with
  | zero => rfl
  | succ n ih =>
    simp only [manyEnds, List.findSome?_append, findSome?_flatMap, ih]
    congr 1
    refine hitem (fun c rest hc => ?_) text
    refine List.findSome?_eq_none_iff.mpr fun other hother => ?_
    -- No further round begins with a character that the last one could have taken.
    have hmatches := matches_of_mem_manyEnds (fun _ _ => matches_of_mem_ends) hother
    obtain ⟨rfl, -⟩ := hmatches.eq_of_opens (by simpa [opens] using hopens c hc)
    exact hnext c rest hc

end Next

theorem Definite.settled {pattern : Pattern} (h : pattern.Definite) : pattern.Settled := by
  induction pattern with
  | empty | one | run | exactly => exact fun _ _ => rfl
  | span p =>
    intro α next hnext text
    rw [loosen, ends, findSome?_runEnds fun c rest hc _ => hnext c rest hc]
    simp [ends]
  | seq first second ihFirst ihSecond =>
    intro α next hnext text
    obtain ⟨hfirst, hsecond, hbetween⟩ := h
    -- What follows the first pattern is the second one and then `next`.
    simp only [loosen, ends, findSome?_flatMap, ihSecond hsecond fun c rest hc => hnext c rest (.inl hc)]
    refine ihFirst hfirst (fun c rest hc => ?_) text
    refine List.findSome?_eq_none_iff.mpr fun other hother => ?_
    obtain ⟨rfl, hnullable⟩ :=
      (matches_of_mem_ends hother).eq_of_opens (by simpa using hbetween c hc)
    exact hnext c rest (.inr ⟨hnullable, hc⟩)
  | either first second ihFirst ihSecond =>
    intro α next hnext text
    simp only [loosen, ends, List.findSome?_append, ihFirst h.1 fun c rest hc => hnext c rest (.inl hc),
      ihSecond h.2 fun c rest hc => hnext c rest (.inr hc)]
  | many item ih =>
    intro α next hnext text
    exact findSome?_manyEnds (ih h.1) h.2 hnext text.length text

/-- Between two runs of one class, what the first run leaves is taken by the second if the word between
    them is missing.  So there are several ways that lead on, but all to the same end. -/
theorem settled_optional {p : Char → Bool} {word : Pattern} (hword : word.Definite)
    (hend : ∀ c, ¬ word.GoesOn c) (hopens : ∀ c, p c = true → word.opens c = false)
    (htaken : word.nullable = false) : (inOrder [span p, optional word, span p]).Settled := by
  intro α next hnext text
  -- Without the first run the pattern is definite, but not with it: both runs are of one class.
  have hback : (inOrder [optional word, span p]).Settled := by
    refine Definite.settled ?_
    simp [inOrder, optional, Definite, GoesOn, opens, hword, hend]
  have hlast : ∀ c rest, (inOrder [optional word, span p]).GoesOn c → next (c :: rest) = none :=
    fun c rest hc => hnext c rest (.inl hc)
  rw [inOrder, loosen, loosen, ends, ends, ends, ends]
  simp only [findSome?_flatMap, hback hlast]
  rw [findSome?_runEnds]
  · simp
  · intro c rest hc hnone
    -- The word is missing here, and both runs together end where the second one does alone.
    simp [inOrder, optional, ends, ends_eq_nil (hopens c hc) htaken, hc] at hnone ⊢
    exact hnone.2

/-! ## Captures -/

/-- Three patterns one after the other capture the same whether they backtrack or not. -/
theorem capture_loosen {before taken after : Pattern} (hbefore : before.Settled)
    (hopens : ∀ c, before.GoesOn c → taken.opens c = false) (htaken : taken.nullable = false)
    (h : (seq taken after).Definite) (hafter : after.nullable = false) (hend : ∀ c, ¬ after.GoesOn c)
    (text : List Char) :
    capture before.loosen taken.loosen after.loosen text = capture before taken after text := by
  obtain ⟨hdefinite, hlast, hbetween⟩ := h
  -- Of the last pattern only whether it has a match counts.
  have hsame : ∀ rest, after.loosen.ends rest = [] ↔ after.ends rest = [] := by
    intro rest
    have hends : (after.loosen.ends rest).findSome? (fun _ => some ()) =
        (after.ends rest).findSome? fun _ => some () :=
      hlast.settled (fun c _ hc => absurd hc (hend c)) rest
    cases hl : after.loosen.ends rest <;> cases hr : after.ends rest <;> simp_all
  have htype : ∀ start (outcome : List Char → List Char),
      ((taken.loosen.ends start).findSome? fun rest =>
          if after.ends rest = [] then none else some (outcome rest)) =
        (taken.ends start).findSome? fun rest =>
          if after.ends rest = [] then none else some (outcome rest) :=
    fun start outcome =>
      hdefinite.settled (fun c rest hc => if_pos (ends_eq_nil (hbetween c hc) hafter rest)) start
  simp only [capture, List.isEmpty_iff, hsame, htype]
  refine hbefore (fun c rest hc => ?_) text
  rw [ends_eq_nil (hopens c hc) htaken]
  rfl

end CodeOutline.Text.Pattern

namespace CodeOutline.Declaration

open Text (Pattern isBlank ne_of_class)
open Text.Pattern

/-! ## The shapes of declaration lines -/

theorem opens_typeToken (c : Char) : typeToken.opens c = isIdentStart c := by
  simp [typeToken, inOrder, opens, nullable]

theorem definite_typeToken : typeToken.Definite := by
  simp only [typeToken, inOrder, blanks, span1, Pattern.char, Definite, GoesOn, opens, nullable]
  simpa using ⟨fun c => isTypeChar_eq_false_of_isBlank, fun c hc => ne_of_class hc (by decide)⟩

theorem definite_leadingType : (seq typeToken leadingType.after).Definite := by
  refine ⟨definite_typeToken, ?_, ?_⟩
  · simp only [leadingType, inOrder, blanks, blanks1, identifier, span1, Pattern.char, Definite, GoesOn,
      opens, nullable]
    simpa using ⟨⟨fun c hc => ne_of_class hc (by decide),
      fun c hc => ⟨isBlank_eq_false_of_isIdentChar hc, ne_of_class hc (by decide)⟩⟩,
      fun c => isIdentStart_eq_false_of_isBlank⟩
  · simpa [typeToken, leadingType, inOrder, blanks, blanks1, span1, Pattern.char, GoesOn, opens, nullable]
      using fun c => isBlank_eq_false_of_isTypeChar

theorem definite_leadingTypeAsync : (seq typeToken leadingTypeAsync.after).Definite := by
  refine ⟨definite_typeToken, ?_, ?_⟩
  · simp only [leadingTypeAsync, inOrder, blanks, blanks1, identifier, parameters, span1, Pattern.char,
      Definite, GoesOn, opens, nullable]
    simpa using ⟨⟨⟨fun c hc => (ne_of_class hc (by decide)).symm, fun c hc => ne_of_class hc (by decide)⟩,
      fun c hc => ⟨isBlank_eq_false_of_isIdentChar hc, ne_of_class hc (by decide)⟩⟩,
      fun c => isIdentStart_eq_false_of_isBlank⟩
  · simpa [typeToken, leadingTypeAsync, inOrder, blanks, blanks1, span1, Pattern.char, GoesOn, opens,
      nullable] using fun c => isBlank_eq_false_of_isTypeChar

theorem definite_trailingType : (seq typeToken trailingType.after).Definite := by
  refine ⟨definite_typeToken, ?_, ?_⟩
  · simpa [trailingType, blanks, Definite, GoesOn, opens] using
      fun c hc => ⟨ne_of_class hc (by decide), ne_of_class hc (by decide)⟩
  · simpa [typeToken, trailingType, inOrder, blanks, span1, Pattern.char, GoesOn, opens, nullable] using
      fun c hc => ⟨isBlank_eq_false_of_isTypeChar hc, ne_of_class hc (by decide), ne_of_class hc (by decide)⟩

theorem definite_before_trailingType : trailingType.before.Definite := by
  simp only [trailingType, inOrder, blanks, identifier, parameters, Pattern.char, Definite, GoesOn, opens,
    nullable]
  simpa using ⟨⟨fun c hc => ne_of_class hc (by decide), fun c hc => ne_of_class hc (by decide)⟩,
    fun c hc => ⟨isBlank_eq_false_of_isIdentChar hc, ne_of_class hc (by decide)⟩⟩

theorem settled_before_accessThenType : accessThenType.before.Settled := by
  refine settled_optional ?_ ?_ ?_ rfl
  · simp [accessWord, Definite]
  · simp [accessWord, GoesOn]
  · simpa [accessWord, opens] using fun c hc => (ne_of_class hc (by decide)).symm

/-- The shapes capture the same types if their repetitions may stop early. -/
theorem Shape.captureHere_eq_backtracking {shape : Shape} (h : shape ∈ returnShapes) (text : List Char) :
    shape.captureHere text =
      Pattern.capture shape.before.loosen typeToken.loosen shape.after.loosen text := by
  have hblank : ∀ c, isBlank c = true → typeToken.opens c = false := by
    simpa only [opens_typeToken] using fun c => isIdentStart_eq_false_of_isBlank
  have hblanks : blanks.Settled := @Definite.settled blanks trivial
  have hparen : ∀ c, ¬ leadingType.after.GoesOn c := by
    simp [leadingType, inOrder, Pattern.char, GoesOn, nullable]
  symm
  simp only [returnShapes, List.mem_cons, List.not_mem_nil, or_false] at h
  rcases h with rfl | rfl | rfl | rfl
  · exact capture_loosen hblanks hblank rfl definite_leadingType rfl hparen text
  · refine capture_loosen hblanks hblank rfl definite_leadingTypeAsync rfl ?_ text
    simp [leadingTypeAsync, inOrder, parameters, Pattern.char, GoesOn, nullable]
  · refine capture_loosen definite_before_trailingType.settled ?_ rfl definite_trailingType rfl ?_ text
    · simpa [trailingType, inOrder, blanks, Pattern.char, GoesOn, nullable] using hblank
    · simp [trailingType, GoesOn, nullable]
  · refine capture_loosen settled_before_accessThenType ?_ rfl definite_leadingType rfl hparen text
    simpa [accessThenType, inOrder, Pattern.optional, accessWord, blanks, GoesOn, nullable] using hblank

end CodeOutline.Declaration
