import CodeOutline.Proofs.Outline.Tokens
import CodeOutline.Proofs.Text.Lines

/-! # Which return type a declaration line has

The shapes of return types are patterns with preferred matches, tried one after the other.  Here is said
without patterns what comes out.  A type is looked for

* before the first opening parenthesis, with a name behind it (`Leading`);
* behind the first closing parenthesis that is followed by a colon and a type and that closes the
  parameters of a name (`FirstTrailing`);
* before the first opening parenthesis, between an access word and a name (`AfterAccess`).

A line has at most one type of each kind, whatever the preferences of the patterns are.  The shape with a
word behind the parameters is not among these kinds: its lines have the same type before the first opening
parenthesis (`LeadingAsync.leading`).
-/

namespace CodeOutline.Declaration

open Text (Pattern isBlank)
open Text.Pattern

/-! ## What shapes capture -/

namespace Shape

variable {shape : Shape} {text type : List Char}

/-- A shape has a match at the start of a text with a given type in it. -/
def Captures (shape : Shape) (text type : List Char) : Prop :=
  ∃ rest behind, shape.before.Matches text (type ++ rest) ∧ IsType type ∧ AheadNot isTypeChar rest ∧
    shape.after.Matches rest behind

/-- All ways to match a shape are listed. -/
def Productive (shape : Shape) : Prop :=
  shape.before.Productive ∧ shape.after.Productive

theorem captures_of_captureHere (h : shape.captureHere text = some type) : shape.Captures text type := by
  obtain ⟨fromType, hfrom, hfound⟩ := List.exists_of_findSome?_eq_some h
  obtain ⟨rest, hrest, htaken⟩ := List.exists_of_findSome?_eq_some hfound
  split at htaken
  · cases htaken
  next hafter =>
    obtain ⟨taken, htype, rfl, hahead⟩ := typeToken_matches_iff.mp (matches_of_mem_ends hrest)
    obtain ⟨behind, hbehind⟩ := List.exists_mem_of_ne_nil _ (by simpa using hafter)
    obtain rfl : taken = type := by simpa using htaken
    exact ⟨rest, behind, matches_of_mem_ends hfrom, htype, hahead, matches_of_mem_ends hbehind⟩

theorem isSome_captureHere (hshape : shape.Productive) (h : shape.Captures text type) :
    (shape.captureHere text).isSome = true := by
  obtain ⟨rest, behind, hbefore, htype, hahead, hafter⟩ := h
  have htoken := typeToken_matches_iff.mpr ⟨type, htype, rfl, hahead⟩
  have hbehind := mem_ends_of_matches hafter hshape.2
  simp only [captureHere, Pattern.capture, List.findSome?_isSome_iff]
  refine ⟨type ++ rest, mem_ends_of_matches hbefore hshape.1, rest,
    mem_ends_of_matches htoken productive_typeToken, ?_⟩
  rw [if_neg (by simpa using List.ne_nil_of_mem hbehind)]
  rfl

/-- Where only one type can be captured, the preferences do not matter. -/
theorem captureHere_of_unique (hshape : shape.Productive) (h : shape.Captures text type)
    (hunique : ∀ other, shape.Captures text other → other = type) : shape.captureHere text = some type := by
  obtain ⟨other, hother⟩ := Option.isSome_iff_exists.mp (isSome_captureHere hshape h)
  rw [hother, hunique other (captures_of_captureHere hother)]

theorem captureAnywhere_eq_some (h : shape.captureAnywhere text = some type) :
    ∃ front rest, text = front ++ rest ∧ shape.captureHere rest = some type ∧
      ∀ before behind, text = before ++ behind → (shape.captureHere behind).isSome = true →
        front.length ≤ before.length := by
  induction text with
  | nil => exact ⟨[], [], rfl, h, fun _ _ _ _ => Nat.zero_le _⟩
  | cons c text ih =>
    rw [captureAnywhere, Option.or_eq_some_iff] at h
    rcases h with hhere | ⟨hnone, hlater⟩
    · exact ⟨[], c :: text, rfl, hhere, fun _ _ _ _ => Nat.zero_le _⟩
    · obtain ⟨front, rest, rfl, hrest, hfirst⟩ := ih hlater
      refine ⟨c :: front, rest, rfl, hrest, fun before behind hsplit hsome => ?_⟩
      cases before with
      | nil =>
        rw [← List.nil_append behind, ← hsplit, hnone] at hsome
        cases hsome
      | cons d before =>
        obtain ⟨-, hsplit⟩ := List.cons.inj hsplit
        exact Nat.succ_le_succ (hfirst before behind hsplit hsome)

theorem isSome_captureAnywhere {front rest : List Char} (h : (shape.captureHere rest).isSome = true) :
    (shape.captureAnywhere (front ++ rest)).isSome = true := by
  induction front with
  | nil => cases rest <;> simp [captureAnywhere, h]
  | cons c front ih => simp [captureAnywhere, ih]

/-- What a shape captures is a type already, so that there are no blanks to drop. -/
theorem capture_eq (shape : Shape) (line : List Char) : shape.capture line =
    if shape.anchored then shape.captureHere line else shape.captureAnywhere line := by
  have hkeep : ∀ found : Option (List Char), (∀ type ∈ found, IsType type) →
      ((found.map Text.trim).filter fun type => !type.isEmpty) = found := by
    intro found htype
    cases found with
    | none => rfl
    | some type =>
      have htype := htype type rfl
      simp [htype.trim_eq, htype.ne_nil]
  have hhere : ∀ text type, shape.captureHere text = some type → IsType type := by
    intro text type h
    obtain ⟨-, -, -, htype, -⟩ := captures_of_captureHere h
    exact htype
  refine hkeep _ fun type hfound => ?_
  split at hfound
  · exact hhere line type hfound
  · obtain ⟨-, rest, -, hrest, -⟩ := captureAnywhere_eq_some hfound
    exact hhere rest type hrest

end Shape

/-! ## A type and a name before a parenthesis -/

/-- A type, blanks, a name and possibly more blanks. -/
def TypeAndName (text type : List Char) : Prop :=
  ∃ gap name back, text = type ++ (gap ++ (name ++ back)) ∧ IsType type ∧ gap ≠ [] ∧ Blank gap ∧
    IsIdentifier name ∧ Blank back

/-- `head` is what stands before the first opening parenthesis. -/
def BeforeParen (line head : List Char) : Prop :=
  '(' ∉ head ∧ ∃ rest, line = head ++ '(' :: rest

/-- Blanks, a type and a name stand before the first opening parenthesis. -/
def Leading (line type : List Char) : Prop :=
  ∃ front text, BeforeParen line (front ++ text) ∧ Blank front ∧ TypeAndName text type

/-- The words that say who may use a declaration. -/
def accessWords : List (List Char) :=
  ["public".toList, "private".toList, "protected".toList]

/-- Blanks, an access word, blanks, a type and a name stand before the first opening parenthesis. -/
def AfterAccess (line type : List Char) : Prop :=
  ∃ front word gap text, BeforeParen line (front ++ (word ++ (gap ++ text))) ∧ Blank front ∧
    word ∈ accessWords ∧ gap ≠ [] ∧ Blank gap ∧ TypeAndName text type

theorem paren_not_mem_of_blank {text : List Char} (h : Blank text) : '(' ∉ text :=
  fun hmem => absurd (h _ hmem) (by decide)

theorem IsType.paren_not_mem {type : List Char} (h : IsType type) : '(' ∉ type :=
  fun hmem => absurd (h.mem_cases hmem) (by decide)

theorem TypeAndName.paren_not_mem {text type : List Char} (h : TypeAndName text type) : '(' ∉ text := by
  obtain ⟨gap, name, back, rfl, htype, -, hgap, hname, hback⟩ := h
  simp only [List.mem_append, not_or]
  exact ⟨htype.paren_not_mem, paren_not_mem_of_blank hgap, hname.isType.paren_not_mem,
    paren_not_mem_of_blank hback⟩

theorem Stops.aheadNot_isIdentChar {rest : List Char} (h : Stops rest) : AheadNot isIdentChar rest := by
  intro c hc
  have htype := h.aheadNot c hc
  simp only [isTypeChar, Bool.or_eq_false_iff] at htype
  exact htype.1.1.1

theorem stops_of_blank {c : Char} {rest : List Char} (h : isBlank c = true) : Stops (c :: rest) := by
  intro d hd
  obtain rfl : c = d := by simpa using hd
  exact ⟨isTypeChar_eq_false_of_isBlank h, Text.ne_of_class h (by decide)⟩

theorem stops_append {gap rest : List Char} (hne : gap ≠ []) (hgap : Blank gap) : Stops (gap ++ rest) := by
  cases gap with
  | nil => exact absurd rfl hne
  | cons c gap => exact stops_of_blank (hgap c List.mem_cons_self)

theorem stops_append_cons {gap rest : List Char} {c : Char} (hgap : Blank gap)
    (hc : isTypeChar c = false ∧ c ≠ ',') : Stops (gap ++ c :: rest) := by
  cases gap with
  | nil =>
    intro d hd
    obtain rfl : c = d := by simpa using hd
    exact hc
  | cons d gap => exact stops_of_blank (hgap d List.mem_cons_self)

theorem stops_append_paren {gap rest : List Char} (hgap : Blank gap) : Stops (gap ++ '(' :: rest) :=
  stops_append_cons hgap (by decide)

theorem aheadNot_isBlank_paren {rest : List Char} : AheadNot isBlank ('(' :: rest) :=
  aheadNot_cons.mpr (by decide)

/-- A type and a name before a parenthesis can be cut off a text in one way only. -/
theorem TypeAndName.unique {text other type otherType rest after : List Char} (h : TypeAndName text type)
    (hother : TypeAndName other otherType) (heq : text ++ '(' :: rest = other ++ '(' :: after) :
    type = otherType := by
  obtain ⟨gap, name, back, rfl, htype, hne, hgap, -⟩ := h
  obtain ⟨gap', name', back', rfl, htype', hne', hgap', -⟩ := hother
  simp only [List.append_assoc] at heq
  exact (htype.unique htype' (stops_append hne hgap) (stops_append hne' hgap') heq).1

theorem TypeAndName.aheadNot_isBlank {text type : List Char} (h : TypeAndName text type)
    (rest : List Char) : AheadNot isBlank (text ++ rest) := by
  obtain ⟨gap, name, back, rfl, htype, -⟩ := h
  rw [List.append_assoc]
  exact htype.aheadNot_isBlank _

/-- The pattern behind a leading type. -/
def nameAndParen : Pattern :=
  .inOrder [blanks1, identifier, blanks, .char '(']

theorem nameAndParen_matches_iff {text rest : List Char} :
    nameAndParen.Matches text rest ↔ ∃ gap name back, gap ≠ [] ∧ Blank gap ∧ IsIdentifier name ∧
      Blank back ∧ text = gap ++ (name ++ (back ++ '(' :: rest)) := by
  simp only [nameAndParen, inOrder, blanks1, Pattern.char, matches_seq_iff, span1_matches_iff,
    identifier_matches_iff, blanks_matches_iff, matches_one_iff, matches_empty_iff, beq_iff_eq]
  constructor
  · rintro ⟨_, ⟨gap, hne, hgap, rfl, -⟩, _, ⟨name, hname, rfl, -⟩, _, ⟨back, hback, rfl, -⟩, _,
      ⟨c, rfl, rfl⟩, rfl⟩
    exact ⟨gap, name, back, hne, hgap, hname, hback, rfl⟩
  · rintro ⟨gap, name, back, hne, hgap, hname, hback, rfl⟩
    have hbehind : AheadNot isIdentChar (back ++ '(' :: rest) :=
      (stops_append_paren hback).aheadNot_isIdentChar
    exact ⟨_, ⟨gap, hne, hgap, rfl, hname.isType.aheadNot_isBlank _⟩, _, ⟨name, hname, rfl, hbehind⟩,
      _, ⟨back, hback, rfl, aheadNot_isBlank_paren⟩, rest, ⟨'(', rfl, rfl⟩, rfl⟩

/-- A type with the pattern for a name behind it is a type and a name before a parenthesis. -/
theorem typeAndName_iff {text type : List Char} :
    (∃ rest behind, text = type ++ rest ∧ IsType type ∧ AheadNot isTypeChar rest ∧
      nameAndParen.Matches rest behind) ↔
      ∃ head behind, TypeAndName head type ∧ text = head ++ '(' :: behind := by
  constructor
  · rintro ⟨rest, behind, rfl, htype, -, hmatch⟩
    obtain ⟨gap, name, back, hne, hgap, hname, hback, rfl⟩ := nameAndParen_matches_iff.mp hmatch
    exact ⟨_, behind, ⟨gap, name, back, rfl, htype, hne, hgap, hname, hback⟩, by simp⟩
  · rintro ⟨_, behind, ⟨gap, name, back, rfl, htype, hne, hgap, hname, hback⟩, rfl⟩
    refine ⟨gap ++ (name ++ (back ++ '(' :: behind)), behind, by simp, htype,
      (stops_append hne hgap).aheadNot, ?_⟩
    exact nameAndParen_matches_iff.mpr ⟨gap, name, back, hne, hgap, hname, hback, rfl⟩

theorem leading_of_append {front head type behind : List Char} (hfront : Blank front)
    (hhead : TypeAndName head type) : Leading (front ++ (head ++ '(' :: behind)) type := by
  refine ⟨front, head, ⟨?_, behind, by simp⟩, hfront, hhead⟩
  simp only [List.mem_append, not_or]
  exact ⟨paren_not_mem_of_blank hfront, hhead.paren_not_mem⟩

theorem Leading.unique {line type other : List Char} (h : Leading line type) (hother : Leading line other) :
    type = other := by
  obtain ⟨front, text, ⟨-, rest, rfl⟩, hfront, htext⟩ := h
  obtain ⟨front', text', ⟨-, rest', heq⟩, hfront', htext'⟩ := hother
  simp only [List.append_assoc] at heq
  obtain ⟨-, heq⟩ := eq_of_append_eq_append hfront hfront' (htext.aheadNot_isBlank _)
    (htext'.aheadNot_isBlank _) heq
  exact htext.unique htext' heq

theorem leadingType_captures_iff {line type : List Char} :
    leadingType.Captures line type ↔ Leading line type := by
  constructor
  · rintro ⟨rest, behind, hbefore, htype, hahead, hafter⟩
    obtain ⟨front, hfront, rfl, -⟩ := blanks_matches_iff.mp hbefore
    obtain ⟨head, behind, hhead, htext⟩ :=
      typeAndName_iff.mp ⟨rest, behind, rfl, htype, hahead, hafter⟩
    rw [htext]
    exact leading_of_append hfront hhead
  · rintro ⟨front, text, ⟨-, behind, rfl⟩, hfront, htext⟩
    obtain ⟨rest, behind, hsplit, htype, hahead, hafter⟩ :=
      typeAndName_iff.mpr ⟨text, behind, htext, rfl⟩
    refine ⟨rest, behind, blanks_matches_iff.mpr ⟨front, hfront, ?_, ?_⟩, htype, hahead, hafter⟩
    · rw [List.append_assoc, hsplit]
    · exact htype.aheadNot_isBlank rest

theorem productive_nameAndParen : nameAndParen.Productive := by
  simp [nameAndParen, inOrder, Pattern.char, blanks1, blanks, identifier, span1, Pattern.Productive]

/-- The first shape captures the type of a leading name. -/
theorem capture_leadingType {line type : List Char} :
    leadingType.capture line = some type ↔ Leading line type := by
  rw [Shape.capture_eq]
  constructor
  · intro h
    exact leadingType_captures_iff.mp (Shape.captures_of_captureHere h)
  · intro h
    refine Shape.captureHere_of_unique ⟨trivial, productive_nameAndParen⟩
      (leadingType_captures_iff.mpr h) fun other hother => ?_
    exact (leadingType_captures_iff.mp hother).unique h

/-! ## A type behind an access word -/

theorem isIdentifier_of_mem_accessWords {word : List Char} (h : word ∈ accessWords) :
    IsIdentifier word := by
  simp only [accessWords, List.mem_cons, List.not_mem_nil, or_false] at h
  rcases h with rfl | rfl | rfl
  · exact ⟨'p', "ublic".toList, rfl, rfl, List.all_eq_true.mp rfl⟩
  · exact ⟨'p', "rivate".toList, rfl, rfl, List.all_eq_true.mp rfl⟩
  · exact ⟨'p', "rotected".toList, rfl, rfl, List.all_eq_true.mp rfl⟩

theorem IsIdentifier.append_isType {name type : List Char} (hname : IsIdentifier name)
    (htype : IsType type) : IsType (name ++ type) := by
  obtain ⟨c, rest, rfl, hc, hrest⟩ := hname
  obtain ⟨d, tail, more, rfl, hd, htail, hmore⟩ := htype
  refine ⟨c, rest ++ d :: tail, more, by simp, hc, ?_, hmore⟩
  intro e he
  simp only [List.mem_append, List.mem_cons] at he
  rcases he with he | rfl | he
  · exact isTypeChar_of_isIdentChar (hrest e he)
  · exact isTypeChar_of_isIdentChar (isIdentChar_of_isIdentStart hd)
  · exact htail e he

/-- No modifier goes on behind an access word. -/
theorem isAccepted_append {word type : List Char} (hword : word ∈ accessWords) (hne : type ≠ []) :
    isAccepted (word ++ type) = true := by
  have hfold : word.map Text.foldChar = word := by
    revert word
    decide
  have hlonger : ∀ word ∈ accessWords, ∀ modifier ∈ modifiers, word <+: modifier.toList →
      word = modifier.toList := by
    decide
  simp only [isAccepted, Bool.not_eq_true', List.contains_eq_mem, decide_eq_false_iff_not]
  intro hmem
  have htext : (Text.foldCase (String.ofList (word ++ type))).toList = word ++ type.map Text.foldChar := by
    simp [Text.foldCase, hfold]
  have hsame := hlonger word hword _ hmem (htext ▸ List.prefix_append _ _)
  rw [htext] at hsame
  exact hne (by simpa using hsame)

theorem accessWord_matches_iff {text rest : List Char} :
    accessWord.Matches text rest ↔ ∃ word ∈ accessWords, text = word ++ rest := by
  simp [accessWord, accessWords, matches_either_iff, matches_exactly_iff]

/-- What stands before a type that may have an access word before it. -/
theorem accessThenType_before_iff {text rest : List Char} :
    accessThenType.before.Matches text rest ↔ ∃ front mid gap, Blank front ∧ text = front ++ mid ∧
      AheadNot isBlank mid ∧ ((∃ word ∈ accessWords, mid = word ++ (gap ++ rest)) ∨ mid = gap ++ rest) ∧
        Blank gap ∧ AheadNot isBlank rest := by
  simp only [accessThenType, inOrder, Pattern.optional, matches_seq_iff, matches_either_iff,
    matches_empty_iff, blanks_matches_iff, accessWord_matches_iff]
  constructor
  · rintro ⟨mid, ⟨front, hfront, rfl, hmid⟩, _, hword, _, ⟨gap, hgap, rfl, hrest⟩, rfl⟩
    exact ⟨front, mid, gap, hfront, rfl, hmid, hword, hgap, hrest⟩
  · rintro ⟨front, mid, gap, hfront, rfl, hmid, hword, hgap, hrest⟩
    exact ⟨mid, ⟨front, hfront, rfl, hmid⟩, _, hword, rest, ⟨gap, hgap, rfl, hrest⟩, rfl⟩

theorem Blank.append {text other : List Char} (h : Blank text) (hother : Blank other) :
    Blank (text ++ other) := by
  intro c hc
  rcases List.mem_append.mp hc with hc | hc
  · exact h c hc
  · exact hother c hc

/-- An access word that is not followed by a blank is the beginning of a leading type. -/
theorem leading_or_afterAccess_of_captures {line type : List Char}
    (h : accessThenType.Captures line type) :
    Leading line type ∨ AfterAccess line type ∨
      ∃ longer, Leading line longer ∧ isAccepted longer = true := by
  obtain ⟨rest, behind, hbefore, htype, hahead, hafter⟩ := h
  obtain ⟨head, behind, hhead, htext⟩ := typeAndName_iff.mp ⟨rest, behind, rfl, htype, hahead, hafter⟩
  obtain ⟨front, mid, gap, hfront, rfl, -, hword, hgap, -⟩ := accessThenType_before_iff.mp hbefore
  rw [htext] at hword
  rcases hword with ⟨word, hword, rfl⟩ | rfl
  · by_cases hne : gap = []
    · -- The word and the type are one longer type.
      subst hne
      obtain ⟨space, name, back, rfl, -, hrest⟩ := hhead
      refine .inr (.inr ⟨word ++ type, ?_, isAccepted_append hword htype.ne_nil⟩)
      have hlong : TypeAndName ((word ++ type) ++ (space ++ (name ++ back))) (word ++ type) :=
        ⟨space, name, back, rfl, (isIdentifier_of_mem_accessWords hword).append_isType htype, hrest⟩
      simpa using leading_of_append hfront hlong
    · refine .inr (.inl ⟨front, word, gap, head, ⟨?_, behind, by simp⟩, hfront, hword, hne, hgap, hhead⟩)
      simp only [List.mem_append, not_or]
      exact ⟨paren_not_mem_of_blank hfront,
        (isIdentifier_of_mem_accessWords hword).isType.paren_not_mem, paren_not_mem_of_blank hgap,
        hhead.paren_not_mem⟩
  · refine .inl ?_
    simpa using leading_of_append (hfront.append hgap) hhead

theorem AfterAccess.captures {line type : List Char} (h : AfterAccess line type) :
    accessThenType.Captures line type := by
  obtain ⟨front, word, gap, text, ⟨-, behind, rfl⟩, hfront, hword, -, hgap, htext⟩ := h
  obtain ⟨rest, behind, hsplit, htype, hahead, hafter⟩ :=
    typeAndName_iff.mpr ⟨text, behind, htext, rfl⟩
  have hnext : AheadNot isBlank (word ++ (gap ++ (type ++ rest))) :=
    (isIdentifier_of_mem_accessWords hword).isType.aheadNot_isBlank _
  refine ⟨rest, behind, accessThenType_before_iff.mpr ?_, htype, hahead, hafter⟩
  refine ⟨front, _, gap, hfront, ?_, hnext, .inl ⟨word, hword, rfl⟩, hgap, htype.aheadNot_isBlank rest⟩
  simp only [List.append_assoc, hsplit]

/-- Whatever is cut off the line like an access word, a type and a name are left. -/
theorem AfterAccess.exists_typeAndName {type front word gap rest : List Char}
    (h : AfterAccess (front ++ (word ++ (gap ++ rest))) type) (hfront : Blank front)
    (hword : IsType word) (hne : gap ≠ []) (hgap : Blank gap) (hrest : AheadNot isBlank rest) :
    ∃ text behind, TypeAndName text type ∧ rest = text ++ '(' :: behind := by
  obtain ⟨front', access, gap', text, ⟨-, behind, heq⟩, hfront', haccess, hne', hgap', htext⟩ := h
  have haccess := (isIdentifier_of_mem_accessWords haccess).isType
  simp only [List.append_assoc] at heq
  obtain ⟨-, heq⟩ := eq_of_append_eq_append hfront hfront' (hword.aheadNot_isBlank _)
    (haccess.aheadNot_isBlank _) heq
  obtain ⟨-, heq⟩ := hword.unique haccess (stops_append hne hgap) (stops_append hne' hgap') heq
  obtain ⟨-, heq⟩ := eq_of_append_eq_append hgap hgap' hrest (htext.aheadNot_isBlank _) heq
  exact ⟨text, behind, htext, heq⟩

/-- The type behind an access word would be the name behind a leading type. -/
theorem AfterAccess.not_leading {line type other : List Char} (h : AfterAccess line type) :
    ¬ Leading line other := by
  rintro ⟨front, _, ⟨-, rest, rfl⟩, hfront, ⟨gap, name, back, rfl, hother, hne, hgap, hname, hback⟩⟩
  simp only [List.append_assoc] at h
  obtain ⟨_, behind, ⟨space, second, _, rfl, htype, hspace, hblank, hsecond, -⟩, heq⟩ :=
    h.exists_typeAndName hfront hother hne hgap (hname.isType.aheadNot_isBlank _)
  simp only [List.append_assoc] at heq
  obtain ⟨-, heq⟩ := hname.isType.unique htype (stops_append_paren hback) (stops_append hspace hblank) heq
  obtain ⟨-, heq⟩ := eq_of_append_eq_append hback hblank aheadNot_isBlank_paren
    (hsecond.isType.aheadNot_isBlank _) heq
  -- A parenthesis would have to be the first character of a second name.
  obtain ⟨c, tail, rfl, hc, -⟩ := hsecond
  obtain ⟨rfl, -⟩ := List.cons.inj heq
  exact absurd hc (by decide)

theorem AfterAccess.unique {line type other : List Char} (h : AfterAccess line type)
    (hother : AfterAccess line other) : type = other := by
  obtain ⟨front, word, gap, text, ⟨-, rest, rfl⟩, hfront, hword, hne, hgap, htext⟩ := hother
  simp only [List.append_assoc] at h
  obtain ⟨text', behind, htext', heq⟩ := h.exists_typeAndName hfront
    (isIdentifier_of_mem_accessWords hword).isType hne hgap (htext.aheadNot_isBlank _)
  exact htext'.unique htext heq.symm

/-- Where no leading type is accepted, the last shape captures the type behind an access word. -/
theorem capture_accessThenType {line type : List Char}
    (hleading : ∀ other, Leading line other → isAccepted other = false) (htype : isAccepted type = true) :
    accessThenType.capture line = some type ↔ AfterAccess line type := by
  rw [Shape.capture_eq]
  constructor
  · intro h
    rcases leading_or_afterAccess_of_captures (Shape.captures_of_captureHere h) with
      hlead | hafter | ⟨longer, hlead, haccepted⟩
    · exact absurd htype (by simp [hleading type hlead])
    · exact hafter
    · exact absurd haccepted (by simp [hleading longer hlead])
  · intro h
    have hshape : accessThenType.Productive := by
      refine ⟨?_, productive_nameAndParen⟩
      simp [accessThenType, inOrder, Pattern.optional, blanks, accessWord, Pattern.Productive]
    refine Shape.captureHere_of_unique hshape h.captures fun other hother => ?_
    rcases leading_or_afterAccess_of_captures hother with hlead | hafter | ⟨longer, hlead, -⟩
    · exact absurd hlead h.not_leading
    · exact hafter.unique h
    · exact absurd hlead h.not_leading

/-! ## A type behind parameters -/

/-- A colon and a type, and a brace or a semicolon behind them. -/
def Annotated (text type : List Char) : Prop :=
  ∃ front gap back close rest, text = front ++ ':' :: (gap ++ (type ++ (back ++ close :: rest))) ∧
    Blank front ∧ Blank gap ∧ IsType type ∧ Blank back ∧ (close = '\x7b' ∨ close = ';')

/-- The text ends in the parameters of a name, which are not closed. -/
def Opened (text : List Char) : Prop :=
  ∃ front word gap inside, text = front ++ (word ++ (gap ++ '(' :: inside)) ∧
    (∀ c ∈ word, isIdentChar c = true) ∧ (∃ c ∈ word, isIdentStart c = true) ∧ Blank gap ∧ ')' ∉ inside

/-- Parameters are closed at a position, and a type stands behind them. -/
def TrailingAt (line : List Char) (position : Nat) (type : List Char) : Prop :=
  ∃ text behind, line = text ++ ')' :: behind ∧ text.length = position ∧ Opened text ∧
    Annotated behind type

/-- The type at the smallest position where parameters with a type behind them are closed. -/
def FirstTrailing (line type : List Char) : Prop :=
  ∃ position, TrailingAt line position type ∧
    ∀ earlier other, TrailingAt line earlier other → position ≤ earlier

theorem stops_append_close {gap rest : List Char} {close : Char} (hgap : Blank gap)
    (hclose : close = '\x7b' ∨ close = ';') : Stops (gap ++ close :: rest) := by
  rcases hclose with rfl | rfl
  · exact stops_append_cons hgap (by decide)
  · exact stops_append_cons hgap (by decide)

theorem Annotated.unique {text type other : List Char} (h : Annotated text type)
    (hother : Annotated text other) : type = other := by
  obtain ⟨front, gap, back, close, rest, rfl, hfront, hgap, htype, hback, hclose⟩ := h
  obtain ⟨front', gap', back', close', rest', heq, hfront', hgap', htype', hback', hclose'⟩ := hother
  have hcolon : ∀ rest, AheadNot isBlank (':' :: rest) := fun rest => aheadNot_cons.mpr (by decide)
  obtain ⟨-, heq⟩ := eq_of_append_eq_append hfront hfront' (hcolon _) (hcolon _) heq
  obtain ⟨-, heq⟩ := List.cons.inj heq
  obtain ⟨-, heq⟩ := eq_of_append_eq_append hgap hgap' (htype.aheadNot_isBlank _)
    (htype'.aheadNot_isBlank _) heq
  exact (htype.unique htype' (stops_append_close hback hclose) (stops_append_close hback' hclose') heq).1

theorem TrailingAt.unique {line type other : List Char} {position : Nat}
    (h : TrailingAt line position type) (hother : TrailingAt line position other) : type = other := by
  obtain ⟨text, behind, rfl, rfl, -, hannotated⟩ := h
  obtain ⟨text', behind', heq, hlength, -, hannotated'⟩ := hother
  obtain ⟨-, heq⟩ := List.append_inj heq hlength.symm
  obtain ⟨-, rfl⟩ := List.cons.inj heq
  exact hannotated.unique hannotated'

theorem parameters_matches_iff {text rest : List Char} :
    parameters.Matches text rest ↔ ∃ inside, ')' ∉ inside ∧ text = '(' :: (inside ++ ')' :: rest) := by
  simp only [parameters, inOrder, Pattern.char, matches_seq_iff, matches_one_iff, matches_span_iff,
    matches_empty_iff, beq_iff_eq, bne_iff_ne]
  constructor
  · rintro ⟨_, ⟨c, rfl, rfl⟩, _, ⟨inside, hinside, rfl, -⟩, _, ⟨d, rfl, rfl⟩, rfl⟩
    exact ⟨inside, fun hmem => hinside _ hmem rfl, rfl⟩
  · rintro ⟨inside, hinside, rfl⟩
    refine ⟨_, ⟨'(', rfl, rfl⟩, _, ⟨inside, ?_, rfl, ?_⟩, rest, ⟨')', rfl, rfl⟩, rfl⟩
    · exact fun c hc hparen => hinside (hparen ▸ hc)
    · simp

theorem trailingType_captures_iff {text type : List Char} :
    trailingType.Captures text type ↔ ∃ name gap inside behind,
      text = name ++ (gap ++ '(' :: (inside ++ ')' :: behind)) ∧ IsIdentifier name ∧ Blank gap ∧
        ')' ∉ inside ∧ Annotated behind type := by
  simp only [Shape.Captures, trailingType, inOrder, Pattern.char, matches_seq_iff, identifier_matches_iff,
    blanks_matches_iff, parameters_matches_iff, matches_one_iff, matches_empty_iff, beq_iff_eq,
    Bool.or_eq_true]
  constructor
  · rintro ⟨_, _, ⟨_, ⟨name, hname, rfl, -⟩, _, ⟨space, hspace, rfl, -⟩, _, ⟨inside, hinside, rfl⟩, _,
      ⟨front, hfront, rfl, -⟩, _, ⟨c, rfl, rfl⟩, _, ⟨gap, hgap, rfl, -⟩, rfl⟩, htype, -, _,
      ⟨back, hback, rfl, -⟩, close, hclose, rfl⟩
    exact ⟨name, space, inside, _, rfl, hname, hspace, hinside, front, gap, back, close, _, rfl, hfront,
      hgap, htype, hback, hclose⟩
  · rintro ⟨name, space, inside, _, rfl, hname, hspace, hinside, front, gap, back, close, rest, rfl,
      hfront, hgap, htype, hback, hclose⟩
    have hclosing : AheadNot isBlank (close :: rest) := by
      rcases hclose with rfl | rfl <;> exact aheadNot_cons.mpr (by decide)
    have hcolon : AheadNot isBlank (':' :: (gap ++ (type ++ (back ++ close :: rest)))) :=
      aheadNot_cons.mpr (by decide)
    refine ⟨back ++ close :: rest, rest, ⟨_, ⟨name, hname, rfl, ?_⟩, _,
      ⟨space, hspace, rfl, aheadNot_isBlank_paren⟩, _, ⟨inside, hinside, rfl⟩, _,
      ⟨front, hfront, rfl, hcolon⟩, _, ⟨':', rfl, rfl⟩, _,
      ⟨gap, hgap, rfl, htype.aheadNot_isBlank _⟩, rfl⟩, htype, ?_, _, ⟨back, hback, rfl, hclosing⟩,
      close, hclose, rfl⟩
    · exact (stops_append_paren hspace).aheadNot_isIdentChar
    · exact (stops_append_close hback hclose).aheadNot

theorem productive_trailingType : trailingType.Productive := by
  simp [trailingType, Shape.Productive, inOrder, Pattern.char, identifier, blanks, parameters,
    Pattern.Productive]

/-- The parameters that the third shape finds are closed at the first closing parenthesis. -/
theorem opened_of_captures {text type : List Char} (h : trailingType.Captures text type)
    (front : List Char) : ∃ body behind, text = body ++ ')' :: behind ∧ ')' ∉ body ∧
      Opened (front ++ body) ∧ Annotated behind type := by
  obtain ⟨name, gap, inside, behind, rfl, hname, hgap, hinside, hannotated⟩ :=
    trailingType_captures_iff.mp h
  refine ⟨name ++ (gap ++ '(' :: inside), behind, by simp, ?_,
    ⟨front, name, gap, inside, rfl, ?_, ?_, hgap, hinside⟩, hannotated⟩
  · simp only [List.mem_append, List.mem_cons, not_or]
    refine ⟨fun hmem => ?_, fun hmem => ?_, by decide, hinside⟩
    · exact absurd (hname.isType.mem_cases hmem) (by decide)
    · exact absurd (hgap _ hmem) (by decide)
  · obtain ⟨c, tail, rfl, hc, htail⟩ := hname
    intro d hd
    rcases List.mem_cons.mp hd with rfl | hd
    · exact isIdentChar_of_isIdentStart hc
    · exact htail d hd
  · obtain ⟨c, tail, rfl, hc, -⟩ := hname
    exact ⟨c, List.mem_cons_self, hc⟩

/-- The third shape has a match that ends the parameters at a given closing parenthesis. -/
theorem TrailingAt.exists_captures {line type : List Char} {position : Nat}
    (h : TrailingAt line position type) : ∃ front text, line = front ++ text ∧ front.length ≤ position ∧
      trailingType.Captures text type := by
  obtain ⟨_, behind, rfl, rfl, ⟨front, word, gap, inside, rfl, hword, ⟨c, hc, hstart⟩, hgap, hinside⟩,
    hannotated⟩ := h
  -- The name is what is left of the word from a letter or an underscore on.
  obtain ⟨digits, tail, rfl⟩ := List.append_of_mem hc
  have hname : IsIdentifier (c :: tail) :=
    ⟨c, tail, rfl, hstart, fun d hd => hword d (by simp [hd])⟩
  refine ⟨front ++ digits, (c :: tail) ++ (gap ++ '(' :: (inside ++ ')' :: behind)), by simp, ?_, ?_⟩
  · simp only [List.length_append]
    omega
  · exact trailingType_captures_iff.mpr
      ⟨c :: tail, gap, inside, behind, rfl, hname, hgap, hinside, hannotated⟩

theorem TrailingAt.getElem? {text type : List Char} {position : Nat}
    (h : TrailingAt text position type) : text[position]? = some ')' := by
  obtain ⟨front, behind, rfl, rfl, -⟩ := h
  simp

/-- The match that begins first closes its parameters first: it has no closing parenthesis before. -/
theorem firstTrailing_of_captureAnywhere {line type : List Char}
    (h : trailingType.captureAnywhere line = some type) : FirstTrailing line type := by
  obtain ⟨front, rest, rfl, hhere, hfirst⟩ := Shape.captureAnywhere_eq_some h
  obtain ⟨body, behind, rfl, hbody, hopened, hannotated⟩ :=
    opened_of_captures (Shape.captures_of_captureHere hhere) front
  refine ⟨(front ++ body).length, ⟨front ++ body, behind, by simp, rfl, hopened, hannotated⟩, ?_⟩
  intro earlier other hother
  obtain ⟨before, text, hsplit, hle, hcaptures⟩ := hother.exists_captures
  have hbegin := hfirst before text hsplit (Shape.isSome_captureHere productive_trailingType hcaptures)
  have hparen := hother.getElem?
  by_cases hlt : earlier < (front ++ body).length
  · rw [List.length_append] at hlt
    rw [List.getElem?_append_right (by omega), List.getElem?_append_left (by omega)] at hparen
    exact absurd (List.mem_of_getElem? hparen) hbody
  · omega

theorem capture_trailingType {line type : List Char} :
    trailingType.capture line = some type ↔ FirstTrailing line type := by
  rw [Shape.capture_eq]
  constructor
  · exact firstTrailing_of_captureAnywhere
  · intro ⟨position, hat, hfirst⟩
    obtain ⟨front, text, rfl, -, hcaptures⟩ := hat.exists_captures
    have hsome : (trailingType.captureAnywhere (front ++ text)).isSome = true :=
      Shape.isSome_captureAnywhere (Shape.isSome_captureHere productive_trailingType hcaptures)
    obtain ⟨other, hother⟩ := Option.isSome_iff_exists.mp hsome
    obtain ⟨earlier, hat', hfirst'⟩ := firstTrailing_of_captureAnywhere hother
    obtain rfl : position = earlier := Nat.le_antisymm (hfirst _ _ hat') (hfirst' _ _ hat)
    rw [hat.unique hat']
    exact hother

/-! ## A leading type with a word behind the parameters -/

/-- Blanks, a type, a name, parameters and, behind blanks, the word of the second shape. -/
def LeadingAsync (line type : List Char) : Prop :=
  ∃ front head inside gap rest,
    line = front ++ (head ++ '(' :: (inside ++ ')' :: (gap ++ ("async".toList ++ rest)))) ∧ Blank front ∧
      TypeAndName head type ∧ ')' ∉ inside ∧ gap ≠ [] ∧ Blank gap

theorem LeadingAsync.leading {line type : List Char} (h : LeadingAsync line type) : Leading line type := by
  obtain ⟨front, head, inside, gap, rest, rfl, hfront, hhead, -⟩ := h
  exact leading_of_append hfront hhead

theorem leadingTypeAsync_after_iff {text behind : List Char} :
    leadingTypeAsync.after.Matches text behind ↔ ∃ middle inside gap,
      nameAndParen.Matches text middle ∧ middle = inside ++ ')' :: (gap ++ ("async".toList ++ behind)) ∧
        ')' ∉ inside ∧ gap ≠ [] ∧ Blank gap := by
  simp only [leadingTypeAsync, nameAndParen, inOrder, blanks1, Pattern.char, matches_seq_iff,
    parameters_matches_iff, span1_matches_iff, matches_exactly_iff, matches_one_iff, matches_empty_iff,
    beq_iff_eq]
  constructor
  · rintro ⟨_, hgap, _, hname, _, hback, _, ⟨inside, hinside, rfl⟩, _, ⟨gap, hne, hblank, rfl, -⟩, _,
      rfl, rfl⟩
    exact ⟨_, inside, gap, ⟨_, hgap, _, hname, _, hback, _, ⟨'(', rfl, rfl⟩, rfl⟩, rfl, hinside, hne,
      hblank⟩
  · rintro ⟨_, inside, gap, ⟨_, hspace, _, hname, _, hback, _, ⟨c, rfl, rfl⟩, rfl⟩, rfl, hinside, hne,
      hblank⟩
    -- The blanks before the word end where the word begins.
    have hword : AheadNot isBlank ("async".toList ++ behind) := aheadNot_cons.mpr (by decide)
    exact ⟨_, hspace, _, hname, _, hback, _, ⟨inside, hinside, rfl⟩, _, ⟨gap, hne, hblank, rfl, hword⟩, _,
      rfl, rfl⟩

theorem leadingTypeAsync_captures_iff {line type : List Char} :
    leadingTypeAsync.Captures line type ↔ LeadingAsync line type := by
  constructor
  · rintro ⟨rest, behind, hbefore, htype, -, hafter⟩
    obtain ⟨front, hfront, rfl, -⟩ := blanks_matches_iff.mp hbefore
    obtain ⟨_, inside, gap, hname, rfl, hinside, hne, hblank⟩ := leadingTypeAsync_after_iff.mp hafter
    obtain ⟨space, name, back, hspace, hspaces, hidentifier, hback, rfl⟩ := nameAndParen_matches_iff.mp hname
    exact ⟨front, type ++ (space ++ (name ++ back)), inside, gap, behind, by simp, hfront,
      ⟨space, name, back, rfl, htype, hspace, hspaces, hidentifier, hback⟩, hinside, hne, hblank⟩
  · rintro ⟨front, _, inside, gap, behind, rfl, hfront,
      ⟨space, name, back, rfl, htype, hspace, hspaces, hidentifier, hback⟩, hinside, hne, hblank⟩
    refine ⟨_, behind, blanks_matches_iff.mpr ⟨front, hfront, ?_, htype.aheadNot_isBlank _⟩, htype,
      (stops_append hspace hspaces).aheadNot, leadingTypeAsync_after_iff.mpr ⟨_, inside, gap,
        nameAndParen_matches_iff.mpr ⟨space, name, back, hspace, hspaces, hidentifier, hback, rfl⟩, rfl,
        hinside, hne, hblank⟩⟩
    simp only [List.append_assoc]

theorem capture_leadingTypeAsync {line type : List Char} :
    leadingTypeAsync.capture line = some type ↔ LeadingAsync line type := by
  rw [Shape.capture_eq]
  constructor
  · intro h
    exact leadingTypeAsync_captures_iff.mp (Shape.captures_of_captureHere h)
  · intro h
    have hshape : leadingTypeAsync.Productive := by
      simp [leadingTypeAsync, Shape.Productive, inOrder, Pattern.char, identifier, blanks, blanks1, span1,
        parameters, Pattern.Productive]
    refine Shape.captureHere_of_unique hshape (leadingTypeAsync_captures_iff.mpr h) fun other hother => ?_
    exact (leadingTypeAsync_captures_iff.mp hother).leading.unique h.leading

/-! ## The result -/

theorem firstAccepted_cons (shape : Shape) (shapes : List Shape) (line : List Char) :
    firstAccepted (shape :: shapes) line =
      ((shape.capture line).filter isAccepted).or (firstAccepted shapes line) := by
  simp only [firstAccepted, List.filterMap_cons]
  cases shape.capture line with
  | none => rfl
  | some type => cases htype : isAccepted type <;> simp [htype, Option.filter]

/-- A line has a type of a kind, and the type is not a modifier. -/
def Accepted (kind : List Char → List Char → Prop) (line type : List Char) : Prop :=
  kind line type ∧ isAccepted type = true

theorem filter_capture_eq_some {shape : Shape} {kind : List Char → List Char → Prop}
    {line type : List Char} (h : shape.capture line = some type ↔ kind line type) :
    (shape.capture line).filter isAccepted = some type ↔ Accepted kind line type := by
  rw [Option.filter_eq_some_iff, h, Accepted]

/-- The second shape adds nothing to the first. -/
theorem filter_capture_async {line : List Char} (h : ∀ other, ¬ Accepted Leading line other) :
    (leadingTypeAsync.capture line).filter isAccepted = none := by
  rw [Option.eq_none_iff_forall_ne_some]
  intro type hfound
  obtain ⟨hcapture, haccepted⟩ := Option.filter_eq_some_iff.mp hfound
  exact h type ⟨(capture_leadingTypeAsync.mp hcapture).leading, haccepted⟩

theorem filter_capture_access {line type : List Char} (h : ∀ other, ¬ Accepted Leading line other) :
    (accessThenType.capture line).filter isAccepted = some type ↔ Accepted AfterAccess line type := by
  have hleading : ∀ other, Leading line other → isAccepted other = false :=
    fun other hother => by simpa using fun haccepted => h other ⟨hother, haccepted⟩
  rw [Option.filter_eq_some_iff, Accepted]
  exact and_congr_left fun haccepted => capture_accessThenType hleading haccepted

/-- The return type of a line is the accepted type before the first opening parenthesis, else the
    accepted type behind the first parameters with a type behind them, else the accepted type between an
    access word and a name.  Only the first parameters with a type count: if their type is a modifier,
    later ones are not looked at. -/
theorem returnType_eq_some_iff (line type : String) :
    returnType? line = some type ↔
      Accepted Leading line.toList type.toList ∨
      (∀ other, ¬ Accepted Leading line.toList other) ∧
        (Accepted FirstTrailing line.toList type.toList ∨
          (∀ other, ¬ Accepted FirstTrailing line.toList other) ∧
            Accepted AfterAccess line.toList type.toList) := by
  have hleading : ∀ found, (leadingType.capture line.toList).filter isAccepted = some found ↔
      Accepted Leading line.toList found := fun _ => filter_capture_eq_some capture_leadingType
  have htrailing : ∀ found, (trailingType.capture line.toList).filter isAccepted = some found ↔
      Accepted FirstTrailing line.toList found := fun _ => filter_capture_eq_some capture_trailingType
  have hchars : returnType? line = some type ↔
      firstAccepted returnShapes line.toList = some type.toList := by
    rw [returnType?, Option.map_eq_some_iff]
    constructor
    · rintro ⟨chars, hchars, rfl⟩
      rw [hchars, String.toList_ofList]
    · intro hchars
      exact ⟨type.toList, hchars, String.ofList_toList⟩
  rw [hchars, returnShapes, firstAccepted_cons, Option.or_eq_some_iff, hleading,
    Option.eq_none_iff_forall_ne_some]
  simp only [ne_eq, hleading]
  refine or_congr_right (and_congr_right fun hnone => ?_)
  rw [firstAccepted_cons, filter_capture_async hnone, Option.none_or, firstAccepted_cons,
    Option.or_eq_some_iff, htrailing, Option.eq_none_iff_forall_ne_some]
  simp only [ne_eq, htrailing]
  refine or_congr_right (and_congr_right fun _ => ?_)
  have hlast : firstAccepted [accessThenType] line.toList =
      (accessThenType.capture line.toList).filter isAccepted := by
    rw [firstAccepted_cons]
    exact Option.or_none
  rw [hlast]
  exact filter_capture_access hnone

-- The first parameters with a type behind them decide, although the type of the second is accepted.
example : returnType? "f(): static; g(): int;" = none := by decide +kernel

example : returnType? "  public Map<K, V> of(k): int \x7b" = some "int" := by decide +kernel

/-- A shape that captures nothing but what the one before it captures can be left out. -/
theorem firstAccepted_shadowed {first second : Shape} {line : List Char}
    (h : ∀ type, second.capture line = some type → first.capture line = some type) (shapes : List Shape) :
    firstAccepted (first :: second :: shapes) line = firstAccepted (first :: shapes) line := by
  simp only [firstAccepted_cons]
  cases hsecond : second.capture line with
  | none => rfl
  | some type =>
    -- The type is accepted or refused at the first shape already.
    rw [h type hsecond]
    cases (some type).filter isAccepted <;> rfl

/-- The second shape is never needed.  In whatever way a line can be cut into its pieces, the type among
    them is the one that the shape captures, and the first shape captures the same. -/
theorem returnType_without_async (line : String) :
    returnType? line =
      (firstAccepted [leadingType, trailingType, accessThenType] line.toList).map String.ofList ∧
    ∀ type, (leadingTypeAsync.capture line.toList = some type ↔ LeadingAsync line.toList type) ∧
      (leadingTypeAsync.capture line.toList = some type → leadingType.capture line.toList = some type) := by
  have hsame : ∀ type, leadingTypeAsync.capture line.toList = some type →
      leadingType.capture line.toList = some type :=
    fun type h => capture_leadingType.mpr (capture_leadingTypeAsync.mp h).leading
  refine ⟨?_, fun type => ⟨capture_leadingTypeAsync, hsame type⟩⟩
  rw [returnType?, returnShapes, firstAccepted_shadowed hsame]

/-- Blanks behind a comma belong to the type, and both shapes capture all of it. -/
theorem returnType_without_async_comma :
    let line := " Map<K,  V> load(a, b)  async \x7b"
    leadingTypeAsync.capture line.toList = some "Map<K,  V>".toList ∧
    leadingType.capture line.toList = some "Map<K,  V>".toList ∧
    returnType? line =
      (firstAccepted [leadingType, trailingType, accessThenType] line.toList).map String.ofList := by
  intro line
  have hasync : leadingTypeAsync.capture line.toList = some "Map<K,  V>".toList := by decide +kernel
  obtain ⟨hanswer, hcapture⟩ := returnType_without_async line
  exact ⟨hasync, (hcapture _).2 hasync, hanswer⟩

end CodeOutline.Declaration
