import CodeOutline.Outline.Declaration
import CodeOutline.Proofs.Text.Pattern

/-! # Identifiers and types on a declaration line

The texts that count as identifiers and types, said without patterns, and what the patterns for them take
from the start of a line.  The classes of characters do not overlap, so that a text can be cut into such
pieces in one way only: a run of a class ends at the first character outside of it
(`eq_of_append_eq_append`), and a type ends where neither one of its characters nor a comma comes next
(`IsType.unique`).
-/

namespace CodeOutline.Declaration

open Text (Pattern isBlank)
open Text.Pattern

/-! ## Classes of characters -/

theorem toNat_of_isAlpha {c : Char} (h : c.isAlpha = true) :
    (65 ≤ c.toNat ∧ c.toNat ≤ 90) ∨ (97 ≤ c.toNat ∧ c.toNat ≤ 122) := by
  rcases (Bool.or_eq_true c.isUpper c.isLower).mp h with h | h
  · exact .inl (of_decide_eq_true h)
  · obtain ⟨hlow, hhigh⟩ := (Bool.and_eq_true _ _).mp h
    exact .inr ⟨of_decide_eq_true hlow, of_decide_eq_true hhigh⟩

theorem toNat_of_isDigit {c : Char} (h : c.isDigit = true) : 48 ≤ c.toNat ∧ c.toNat ≤ 57 := by
  obtain ⟨hlow, hhigh⟩ := (Bool.and_eq_true _ _).mp h
  exact ⟨of_decide_eq_true hlow, of_decide_eq_true hhigh⟩

theorem isBlank_eq_false_of_isTypeChar {c : Char} (h : isTypeChar c = true) : isBlank c = false := by
  have hrange : (48 ≤ c.toNat ∧ c.toNat ≤ 57) ∨ (60 ≤ c.toNat ∧ c.toNat ≤ 63) ∨
      (65 ≤ c.toNat ∧ c.toNat ≤ 90) ∨ (95 ≤ c.toNat ∧ c.toNat ≤ 122) := by
    simp only [isTypeChar, isIdentChar, Char.isAlphanum, Bool.or_eq_true, beq_iff_eq] at h
    rcases h with ((((h | h) | rfl) | rfl) | rfl) | rfl
    · have := toNat_of_isAlpha h
      omega
    · exact .inl (toNat_of_isDigit h)
    all_goals decide
  simp only [isBlank, Text.blankRanges, List.any_cons, List.any_nil, Bool.or_false, Bool.or_eq_false_iff,
    Bool.and_eq_false_iff, decide_eq_false_iff_not]
  omega

theorem isIdentChar_of_isIdentStart {c : Char} (h : isIdentStart c = true) : isIdentChar c = true := by
  simp only [isIdentStart, isIdentChar, Char.isAlphanum, Bool.or_eq_true] at h ⊢
  exact h.imp_left .inl

theorem isTypeChar_of_isIdentChar {c : Char} (h : isIdentChar c = true) : isTypeChar c = true := by
  simp [isTypeChar, h]

theorem isBlank_eq_false_of_isIdentChar {c : Char} (h : isIdentChar c = true) : isBlank c = false :=
  isBlank_eq_false_of_isTypeChar (isTypeChar_of_isIdentChar h)

theorem isTypeChar_eq_false_of_isBlank {c : Char} (h : isBlank c = true) : isTypeChar c = false := by
  refine Bool.eq_false_iff.mpr fun htype => ?_
  rw [isBlank_eq_false_of_isTypeChar htype] at h
  cases h

theorem isIdentStart_eq_false_of_isBlank {c : Char} (h : isBlank c = true) : isIdentStart c = false := by
  refine Bool.eq_false_iff.mpr fun hstart => ?_
  rw [isBlank_eq_false_of_isIdentChar (isIdentChar_of_isIdentStart hstart)] at h
  cases h

/-! ## What comes next -/

/-- The next character, if there is one, is not in a class. -/
def AheadNot (p : Char → Bool) (rest : List Char) : Prop :=
  ∀ c ∈ rest.head?, p c = false

theorem aheadNot_cons {p : Char → Bool} {c : Char} {rest : List Char} :
    AheadNot p (c :: rest) ↔ p c = false := by
  simp [AheadNot]

/-- A run of a class can be cut off a text in one way only. -/
theorem eq_of_append_eq_append {p : Char → Bool} {first second rest other : List Char}
    (hfirst : ∀ c ∈ first, p c = true) (hsecond : ∀ c ∈ second, p c = true) (hrest : AheadNot p rest)
    (hother : AheadNot p other) (h : first ++ rest = second ++ other) : first = second ∧ rest = other := by
  have hsame : rest = other := by
    rw [← dropWhile_span hfirst hrest, h, dropWhile_span hsecond hother]
  exact ⟨List.append_cancel_right (hsame ▸ h), hsame⟩

/-! ## Texts -/

/-- A text of blanks. -/
def Blank (text : List Char) : Prop :=
  ∀ c ∈ text, isBlank c = true

/-- A letter or an underscore, and letters, digits and underscores behind it. -/
def IsIdentifier (text : List Char) : Prop :=
  ∃ c rest, text = c :: rest ∧ isIdentStart c = true ∧ ∀ d ∈ rest, isIdentChar d = true

/-- Further names of a type, each with a comma and blanks before it. -/
inductive Further : List Char → Prop where
  | nil : Further []
  | cons {gap name rest : List Char} : Blank gap → name ≠ [] → (∀ c ∈ name, isTypeChar c = true) →
      Further rest → Further (',' :: (gap ++ (name ++ rest)))

/-- A letter or an underscore with characters of a type behind it, and further names after commas. -/
def IsType (text : List Char) : Prop :=
  ∃ c name more, text = c :: (name ++ more) ∧ isIdentStart c = true ∧
    (∀ d ∈ name, isTypeChar d = true) ∧ Further more

/-- No type goes on here. -/
def Stops (rest : List Char) : Prop :=
  ∀ c ∈ rest.head?, isTypeChar c = false ∧ c ≠ ','

theorem Stops.aheadNot {rest : List Char} (h : Stops rest) : AheadNot isTypeChar rest :=
  fun c hc => (h c hc).1

theorem Further.aheadNot {more rest : List Char} (h : Further more) (hrest : AheadNot isTypeChar rest) :
    AheadNot isTypeChar (more ++ rest) := by
  cases h with
  | nil => exact hrest
  | cons => exact aheadNot_cons.mpr rfl

theorem Further.mem_cases {more : List Char} {c : Char} (h : Further more) (hc : c ∈ more) :
    isTypeChar c = true ∨ isBlank c = true ∨ c = ',' := by
  induction h with
  | nil => cases hc
  | cons hgap _ hname _ ih =>
    simp only [List.mem_cons, List.mem_append] at hc
    rcases hc with rfl | hc | hc | hc
    · exact .inr (.inr rfl)
    · exact .inr (.inl (hgap c hc))
    · exact .inl (hname c hc)
    · exact ih hc

theorem Further.getLast {front more : List Char} (h : Further more)
    (hfront : ∀ c ∈ front.getLast?, isTypeChar c = true) :
    ∀ c ∈ (front ++ more).getLast?, isTypeChar c = true := by
  induction h generalizing front with
  | nil => simpa using hfront
  | @cons gap name rest _ hne hname _ ih =>
    -- The name is the last piece of what stands before the other names.
    have hlast : (front ++ ',' :: (gap ++ name)).getLast? = name.getLast? := by
      rw [← List.cons_append, ← List.append_assoc, List.getLast?_append, Option.or_of_isSome]
      simpa using hne
    have := @ih (front ++ ',' :: (gap ++ name)) fun c hc =>
      hname c (List.mem_of_getLast? (hlast ▸ hc))
    simpa using this

theorem aheadNot_isBlank_of_isTypeChar {name rest : List Char} (hne : name ≠ [])
    (h : ∀ c ∈ name, isTypeChar c = true) : AheadNot isBlank (name ++ rest) := by
  cases name with
  | nil => exact absurd rfl hne
  | cons c name =>
    exact aheadNot_cons.mpr (isBlank_eq_false_of_isTypeChar (h c List.mem_cons_self))

theorem Further.unique {more others rest other : List Char} (hmore : Further more)
    (hothers : Further others) (hrest : Stops rest) (hother : Stops other)
    (h : more ++ rest = others ++ other) : more = others ∧ rest = other := by
  induction hmore generalizing others with
  | nil =>
    cases hothers with
    | nil => exact ⟨rfl, h⟩
    | cons =>
      -- A comma would have to come next.
      have hcomma := hrest ',' (by rw [← List.nil_append rest, h]; rfl)
      exact absurd rfl hcomma.2
  | cons hgap hne hname hfurther ih =>
    cases hothers with
    | nil =>
      have hcomma := hother ',' (by rw [← List.nil_append other, ← h]; rfl)
      exact absurd rfl hcomma.2
    | cons hgap' hne' hname' hfurther' =>
      simp only [List.cons_append, List.append_assoc, List.cons.injEq, true_and] at h
      obtain ⟨rfl, hnames⟩ := eq_of_append_eq_append hgap hgap'
        (aheadNot_isBlank_of_isTypeChar hne hname) (aheadNot_isBlank_of_isTypeChar hne' hname') h
      obtain ⟨rfl, hrests⟩ := eq_of_append_eq_append hname hname' (hfurther.aheadNot hrest.aheadNot)
        (hfurther'.aheadNot hother.aheadNot) hnames
      obtain ⟨rfl, rfl⟩ := ih hfurther' hrests
      exact ⟨rfl, rfl⟩

namespace IsType

variable {type other : List Char}

/-- A type can be cut off a text in one way only. -/
theorem unique {rest after : List Char} (htype : IsType type) (hother : IsType other)
    (hrest : Stops rest) (hafter : Stops after) (h : type ++ rest = other ++ after) :
    type = other ∧ rest = after := by
  obtain ⟨c, name, more, rfl, -, hname, hmore⟩ := htype
  obtain ⟨d, name', more', rfl, -, hname', hmore'⟩ := hother
  simp only [List.cons_append, List.append_assoc, List.cons.injEq] at h
  obtain ⟨rfl, htail⟩ := h
  obtain ⟨rfl, hmores⟩ := eq_of_append_eq_append hname hname' (hmore.aheadNot hrest.aheadNot)
    (hmore'.aheadNot hafter.aheadNot) htail
  obtain ⟨rfl, rfl⟩ := hmore.unique hmore' hrest hafter hmores
  exact ⟨rfl, rfl⟩

theorem ne_nil (h : IsType type) : type ≠ [] := by
  obtain ⟨c, name, more, rfl, -⟩ := h
  exact List.cons_ne_nil _ _

theorem aheadNot_isBlank (h : IsType type) (rest : List Char) : AheadNot isBlank (type ++ rest) := by
  obtain ⟨c, name, more, rfl, hc, -⟩ := h
  exact aheadNot_cons.mpr
    (isBlank_eq_false_of_isIdentChar (isIdentChar_of_isIdentStart hc))

theorem mem_cases {c : Char} (h : IsType type) (hc : c ∈ type) :
    isTypeChar c = true ∨ isBlank c = true ∨ c = ',' := by
  obtain ⟨first, name, more, rfl, hfirst, hname, hmore⟩ := h
  rcases List.mem_cons.mp hc with rfl | hc
  · exact .inl (isTypeChar_of_isIdentChar (isIdentChar_of_isIdentStart hfirst))
  rcases List.mem_append.mp hc with hc | hc
  · exact .inl (hname c hc)
  · exact hmore.mem_cases hc

theorem getLast (h : IsType type) : ∀ c ∈ type.getLast?, isTypeChar c = true := by
  obtain ⟨first, name, more, rfl, hfirst, hname, hmore⟩ := h
  rw [← List.cons_append]
  refine hmore.getLast fun c hc => ?_
  rcases List.mem_cons.mp (List.mem_of_getLast? hc) with rfl | hc
  · exact isTypeChar_of_isIdentChar (isIdentChar_of_isIdentStart hfirst)
  · exact hname c hc

/-- A type has no blanks at its ends. -/
theorem trim_eq (h : IsType type) : Text.trim type = type := by
  have hahead : AheadNot isBlank type := by simpa using h.aheadNot_isBlank []
  have hfront : type.dropWhile isBlank = type := @dropWhile_span isBlank [] type (by simp) hahead
  have hback : type.reverse.dropWhile isBlank = type.reverse := by
    refine @dropWhile_span isBlank [] type.reverse (by simp) fun c hc => ?_
    rw [List.head?_reverse] at hc
    exact isBlank_eq_false_of_isTypeChar (h.getLast c hc)
  rw [Text.trim, hfront, Text.trimEnd, hback, List.reverse_reverse]

end IsType

theorem IsIdentifier.isType {name : List Char} (h : IsIdentifier name) : IsType name := by
  obtain ⟨c, rest, rfl, hc, hrest⟩ := h
  exact ⟨c, rest, [], by simp, hc, fun d hd => isTypeChar_of_isIdentChar (hrest d hd), .nil⟩

/-! ## What the patterns take -/

theorem blanks_matches_iff {text rest : List Char} :
    blanks.Matches text rest ↔ ∃ gap, Blank gap ∧ text = gap ++ rest ∧ AheadNot isBlank rest :=
  matches_span_iff

theorem span1_matches_iff {p : Char → Bool} {text rest : List Char} :
    (span1 p).Matches text rest ↔
      ∃ front, front ≠ [] ∧ (∀ c ∈ front, p c = true) ∧ text = front ++ rest ∧ AheadNot p rest := by
  simp only [span1, matches_seq_iff, matches_one_iff, matches_span_iff]
  constructor
  · rintro ⟨mid, ⟨c, hc, rfl⟩, front, hfront, rfl, hrest⟩
    exact ⟨c :: front, List.cons_ne_nil c front, by simpa [hc] using hfront, rfl, hrest⟩
  · rintro ⟨front, hne, hfront, rfl, hrest⟩
    cases front with
    | nil => exact absurd rfl hne
    | cons c front =>
      exact ⟨front ++ rest, ⟨c, hfront c List.mem_cons_self, rfl⟩, front,
        fun d hd => hfront d (List.mem_cons_of_mem c hd), rfl, hrest⟩

theorem identifier_matches_iff {text rest : List Char} :
    identifier.Matches text rest ↔
      ∃ name, IsIdentifier name ∧ text = name ++ rest ∧ AheadNot isIdentChar rest := by
  simp only [identifier, matches_seq_iff, matches_one_iff, matches_span_iff]
  constructor
  · rintro ⟨mid, ⟨c, hc, rfl⟩, name, hname, rfl, hrest⟩
    exact ⟨c :: name, ⟨c, name, rfl, hc, hname⟩, rfl, hrest⟩
  · rintro ⟨name, ⟨c, tail, rfl, hc, htail⟩, rfl, hrest⟩
    exact ⟨tail ++ rest, ⟨c, hc, rfl⟩, tail, htail, rfl, hrest⟩

/-- One further name of a type. -/
def furtherName : Pattern :=
  .inOrder [.char ',', blanks, .span1 isTypeChar]

theorem furtherName_matches_iff {text rest : List Char} :
    furtherName.Matches text rest ↔ ∃ gap name, Blank gap ∧ name ≠ [] ∧
      (∀ c ∈ name, isTypeChar c = true) ∧ text = ',' :: (gap ++ (name ++ rest)) ∧
        AheadNot isTypeChar rest := by
  simp only [furtherName, inOrder, Pattern.char, matches_seq_iff, matches_one_iff, blanks_matches_iff,
    span1_matches_iff, matches_empty_iff, beq_iff_eq]
  constructor
  · rintro ⟨_, ⟨c, rfl, rfl⟩, _, ⟨gap, hgap, rfl, -⟩, _, ⟨name, hne, hname, rfl, hrest⟩, rfl⟩
    exact ⟨gap, name, hgap, hne, hname, rfl, hrest⟩
  · rintro ⟨gap, name, hgap, hne, hname, rfl, hrest⟩
    exact ⟨_, ⟨',', rfl, rfl⟩, _, ⟨gap, hgap, rfl, aheadNot_isBlank_of_isTypeChar hne hname⟩, rest,
      ⟨name, hne, hname, rfl, hrest⟩, rfl⟩

theorem further_of_matches {text rest : List Char} (h : (many furtherName).Matches text rest)
    (htext : AheadNot isTypeChar text) :
    ∃ more, Further more ∧ text = more ++ rest ∧ AheadNot isTypeChar rest := by
  generalize hpattern : many furtherName = pattern at h
  induction h with
  | manyStop => exact ⟨[], .nil, rfl, htext⟩
  | manyStep hitem _ _ ih =>
    obtain rfl := Pattern.many.inj hpattern
    obtain ⟨gap, name, hgap, hne, hname, rfl, hmid⟩ := furtherName_matches_iff.mp hitem
    obtain ⟨more, hmore, rfl, hrest⟩ := ih hmid rfl
    exact ⟨_, .cons hgap hne hname hmore, by simp, hrest⟩
  | empty | one | run | span | exactly | seq | eitherLeft | eitherRight => cases hpattern

theorem Further.matches {more rest : List Char} (h : Further more) (hrest : AheadNot isTypeChar rest) :
    (many furtherName).Matches (more ++ rest) rest := by
  induction h with
  | nil => exact .manyStop
  | cons hgap hne hname hfurther ih =>
    refine .manyStep (furtherName_matches_iff.mpr ⟨_, _, hgap, hne, hname, ?_, ?_⟩) ih
    · simp
    · exact hfurther.aheadNot hrest

theorem typeToken_matches_iff {text rest : List Char} :
    typeToken.Matches text rest ↔
      ∃ type, IsType type ∧ text = type ++ rest ∧ AheadNot isTypeChar rest := by
  have hpattern : typeToken =
      .seq (.one isIdentStart) (.seq (.span isTypeChar) (.seq (.many furtherName) .empty)) := rfl
  simp only [hpattern, matches_seq_iff, matches_one_iff, matches_span_iff, matches_empty_iff]
  constructor
  · rintro ⟨_, ⟨c, hc, rfl⟩, _, ⟨name, hname, rfl, hahead⟩, _, hmany, rfl⟩
    obtain ⟨more, hmore, rfl, hrest⟩ := further_of_matches hmany hahead
    exact ⟨c :: (name ++ more), ⟨c, name, more, rfl, hc, hname, hmore⟩, by simp, hrest⟩
  · rintro ⟨_, ⟨c, name, more, rfl, hc, hname, hmore⟩, rfl, hrest⟩
    exact ⟨_, ⟨c, hc, rfl⟩, more ++ rest, ⟨name, hname, by simp, hmore.aheadNot hrest⟩, rest,
      hmore.matches hrest, rfl⟩

theorem productive_typeToken : typeToken.Productive := by
  have hitem : furtherName.Productive := by simp [furtherName, inOrder, Pattern.char, blanks, span1, Productive]
  have hshorter : ∀ text rest, furtherName.Matches text rest → rest.length < text.length := by
    intro text rest h
    obtain ⟨gap, name, -, -, -, rfl, -⟩ := furtherName_matches_iff.mp h
    simp only [List.length_cons, List.length_append]
    omega
  exact ⟨trivial, trivial, ⟨hitem, hshorter⟩, trivial⟩

end CodeOutline.Declaration
