import CodeOutline.Json.Direct
import CodeOutline.Proofs.Json.Documents

/-! # Passing over what can be read

A value that can be read can be passed over, and both ways end at the same place.  The one who passes
over is less strict: numbers may be of any size, halves of characters may stand alone, and nesting
has no limit.

Passing over keeps what is open on a stack and counts rounds.  `passesOver_of_value` says that a value
takes it back to the same stack after some rounds, fewer than four for each character, so that the
rounds last.
-/

namespace CodeOutline.Json

theorem map_eq_ok_iff {α β : Type} {result : Except Fault α} {f : α → β} {b : β} :
    result.map f = .ok b ↔ ∃ a, result = .ok a ∧ f a = b := by
  cases result <;> simp [Except.map]

/-! ## Numbers -/

theorem eq_of_withinRange {significand : Nat} {exponent : Int} {text rest : List Char}
    (h : withinRange significand exponent text = .ok rest) : text = rest := by
  unfold withinRange at h
  split at h
  · cases h
  · exact Except.ok.inj h

theorem readExponentDigits_eq_ok {significand : Nat} {base : Int} {up : Bool} {text rest : List Char}
    (h : readExponentDigits significand base up text = .ok rest) :
    text.head?.any Char.isDigit = true ∧ text.dropWhile Char.isDigit = rest := by
  unfold readExponentDigits at h
  split at h
  · cases h
  · rename_i c tail
    split at h
    · rename_i hdigit
      refine ⟨by simpa using hdigit, ?_⟩
      dsimp only at h
      split at h
      · split at h
        · cases h
        · exact Except.ok.inj h
      · exact eq_of_withinRange h
    · cases h

theorem skipExponent_of_readExponent {significand : Nat} {base : Int} {text rest : List Char}
    (h : readExponent significand base text = .ok rest) : skipExponent text = .ok rest := by
  unfold readExponent at h
  unfold skipExponent
  split at h
  · obtain ⟨hdigit, rfl⟩ := readExponentDigits_eq_ok h
    simp [hdigit]
  · obtain ⟨hdigit, rfl⟩ := readExponentDigits_eq_ok h
    simp [hdigit]
  · obtain ⟨hdigit, rfl⟩ := readExponentDigits_eq_ok h
    simp [hdigit]

theorem skipTail_of_readTail {significand : Nat} {base : Int} {text rest : List Char}
    (h : readTail significand base text = .ok rest) : skipTail text = .ok rest := by
  unfold readTail at h
  unfold skipTail
  split at h
  · exact skipExponent_of_readExponent h
  · exact skipExponent_of_readExponent h
  · rw [eq_of_withinRange h]

theorem skipTail_of_readFraction {significand : Nat} {base : Int} {text rest : List Char}
    (h : readFraction significand base text = .ok rest) :
    text.head?.any Char.isDigit = true ∧ skipTail (text.dropWhile Char.isDigit) = .ok rest := by
  unfold readFraction at h
  dsimp only at h
  split at h
  · cases h
  · rename_i hdigits
    refine ⟨?_, skipTail_of_readTail h⟩
    cases text with
    | nil => simp at hdigits
    | cons c tail =>
      by_cases hc : c.isDigit = true
      · simpa using hc
      · simp [hc] at hdigits

theorem skipAfterInteger_of_readAfterInteger {significand left : Nat} {whole : Bool}
    {text rest : List Char} (h : readAfterInteger significand left text = .ok (whole, rest)) :
    skipAfterInteger text = .ok rest := by
  unfold readAfterInteger at h
  unfold skipAfterInteger
  split at h
  · obtain ⟨_, hread, hsame⟩ := map_eq_ok_iff.mp h
    cases hsame
    obtain ⟨hdigit, htail⟩ := skipTail_of_readFraction hread
    simpa [hdigit] using htail
  · obtain ⟨_, hread, hsame⟩ := map_eq_ok_iff.mp h
    cases hsame
    exact skipExponent_of_readExponent hread
  · obtain ⟨_, hread, hsame⟩ := map_eq_ok_iff.mp h
    cases hsame
    exact skipExponent_of_readExponent hread
  · rename_i hdot he hE
    have hskip : skipTail text = .ok text := by
      unfold skipTail
      split
      · exact absurd rfl (he _)
      · exact absurd rfl (hE _)
      · rfl
    have htext : text = rest := by
      split at h
      · cases h
        rfl
      · obtain ⟨_, hread, hsame⟩ := map_eq_ok_iff.mp h
        cases hsame
        exact eq_of_withinRange hread
    split
    · exact absurd rfl (hdot _)
    · rw [hskip, htext]

theorem skipUnsigned_of_readUnsigned {text rest : List Char} {whole : Bool} {value : Nat}
    (h : readUnsigned text = .ok (whole, value, rest)) : skipUnsigned text = .ok rest := by
  unfold readUnsigned at h
  unfold skipUnsigned
  split at h
  · cases h
  · split at h
    · cases h
    · rename_i hdigit
      obtain ⟨_, hread, hsame⟩ := map_eq_ok_iff.mp h
      cases hsame
      simpa [hdigit] using skipAfterInteger_of_readAfterInteger hread
  · rename_i c tail hzero
    split at h
    · rename_i hdigit
      obtain ⟨_, hread, hsame⟩ := map_eq_ok_iff.mp h
      cases hsame
      simpa [hdigit] using skipAfterInteger_of_readAfterInteger hread
    · cases h

/-- A number that can be read can be passed over, its sign first. -/
theorem skipUnsigned_of_readNumber {c : Char} {tail rest : List Char} {json : Json}
    (h : readNumber (c :: tail) = .ok (json, rest)) :
    skipUnsigned (if c = '-' then tail else c :: tail) = .ok rest := by
  unfold readNumber at h
  split at h
  · rename_i digits heq
    cases heq
    split at h
    · cases h
    · rename_i hread
      cases h
      exact skipUnsigned_of_readUnsigned hread
  · rename_i hminus
    have hc : c ≠ '-' := fun hc => hminus tail (by rw [hc])
    rw [if_neg hc]
    split at h
    · cases h
    · rename_i hread
      cases h
      exact skipUnsigned_of_readUnsigned hread

/-! ## Strings -/

theorem skipChars_of_readChars {text cs rest : List Char} (h : readChars text = .ok (cs, rest)) :
    skipChars text = .ok rest := by
  fun_induction readChars text generalizing cs rest with
  | case2 tail =>
    cases h
    rfl
  | case9 a b c d lead hlead _ _ e f g k tail trail htrail _ ih =>
    -- The second half is passed over as a character of its own.
    obtain ⟨⟨_, _⟩, hread, hsame⟩ := map_eq_ok_iff.mp h
    cases hsame
    simpa [skipChars, hlead, htrail] using ih hread
  | case13 a b c d tail n hn _ _ ih =>
    obtain ⟨⟨_, _⟩, hread, hsame⟩ := map_eq_ok_iff.mp h
    cases hsame
    simpa [skipChars, hn] using ih hread
  | case16 e tail _ hu c hc ih =>
    obtain ⟨⟨_, _⟩, hread, hsame⟩ := map_eq_ok_iff.mp h
    cases hsame
    simpa [skipChars, hu, hc] using ih hread
  | case18 c tail hquote hbackslash hc ih =>
    obtain ⟨⟨_, _⟩, hread, hsame⟩ := map_eq_ok_iff.mp h
    cases hsame
    simpa [skipChars, hquote, hbackslash, hc] using ih hread
  | _ => cases h

/-! ## Something is always taken -/

theorem length_skipExponent_le {text rest : List Char} (h : skipExponent text = .ok rest) :
    rest.length ≤ text.length := by
  have hdigits : ∀ {digits : List Char},
      (if digits.head?.any Char.isDigit then .ok (digits.dropWhile Char.isDigit)
        else .error .malformed : Except Fault (List Char)) = .ok rest →
      rest.length ≤ digits.length := by
    intro digits hskip
    split at hskip
    · cases hskip
      exact (List.dropWhile_sublist _).length_le
    · cases hskip
  unfold skipExponent at h
  dsimp only at h
  split at h
  · exact Nat.le_succ_of_le (hdigits h)
  · exact Nat.le_succ_of_le (hdigits h)
  · exact hdigits h

theorem length_skipTail_le {text rest : List Char} (h : skipTail text = .ok rest) :
    rest.length ≤ text.length := by
  unfold skipTail at h
  split at h
  · exact Nat.le_succ_of_le (length_skipExponent_le h)
  · exact Nat.le_succ_of_le (length_skipExponent_le h)
  · cases h
    exact Nat.le_refl _

theorem length_skipAfterInteger_le {text rest : List Char} (h : skipAfterInteger text = .ok rest) :
    rest.length ≤ text.length := by
  unfold skipAfterInteger at h
  split at h
  · rename_i tail
    split at h
    · have := length_skipTail_le h
      have := (List.dropWhile_sublist Char.isDigit (l := tail)).length_le
      rw [List.length_cons]
      omega
    · cases h
  · exact length_skipTail_le h

theorem length_skipUnsigned_lt {text rest : List Char} (h : skipUnsigned text = .ok rest) :
    rest.length < text.length := by
  unfold skipUnsigned at h
  split at h
  · split at h
    · cases h
    · exact Nat.lt_succ_of_le (length_skipAfterInteger_le h)
  · rename_i c tail _
    split at h
    · rename_i hdigit
      rw [List.dropWhile_cons_of_pos hdigit] at h
      have := length_skipAfterInteger_le h
      have := (List.dropWhile_sublist Char.isDigit (l := tail)).length_le
      rw [List.length_cons]
      omega
    · cases h
  · cases h

theorem length_skipChars_lt {text rest : List Char} (h : skipChars text = .ok rest) :
    rest.length < text.length := by
  fun_induction skipChars text with
  | case2 tail =>
    cases h
    exact Nat.lt_succ_self _
  | case5 a b c d tail _ ih | case8 e tail _ _ _ ih | case10 c tail _ _ _ ih =>
    have := ih h
    simp only [List.length_cons]
    omega
  | _ => cases h

namespace Reader

/-! ## Scalars -/

theorem skipChars_of_chars {text rest : List Char} {s : String} (h : chars text = .ok (s, rest)) :
    skipChars text = .ok rest := by
  obtain ⟨cs, hread, -⟩ := chars_eq_ok_iff.mp h
  exact skipChars_of_readChars hread

theorem skipScalar_of_scalar {c : Char} {tail rest : List Char} {json : Json}
    (h : scalar c (c :: tail) = .ok (json, rest)) :
    skipScalar c (c :: tail) = .ok ((), rest) ∧ rest.length ≤ tail.length := by
  have hword : ∀ {w : List Char}, w ≠ [] → c :: tail = w ++ rest →
      letters w (c :: tail) = .ok ((), rest) ∧ rest.length ≤ tail.length := by
    intro w hw htext
    refine ⟨letters_eq_ok_iff.mpr htext, ?_⟩
    have hlength := congrArg List.length htext
    have := List.length_pos_iff.mpr hw
    simp only [List.length_cons, List.length_append] at hlength
    omega
  unfold skipScalar
  rcases scalar_cases h with ⟨hc, -, htext⟩ | ⟨hc, -, htext⟩ | ⟨hc, -, htext⟩ | ⟨hc, hread⟩ |
    ⟨hc, s, -, hchars⟩
  · simpa [hc] using hword (by decide) htext
  · simpa [hc] using hword (by decide) htext
  · simpa [hc] using hword (by decide) htext
  · have hskip := skipUnsigned_of_readNumber hread
    have hlength := length_skipUnsigned_lt hskip
    by_cases hminus : c = '-'
    · rw [if_pos hminus] at hskip hlength
      simp only [hminus, Char.reduceEq, if_false, if_true]
      rw [advance_bind]
      exact ⟨by simp [lift, hskip, Except.map], Nat.le_of_lt hlength⟩
    · rw [if_neg hminus] at hskip hlength
      have hdigit : c.isDigit = true := hc.resolve_left hminus
      have hn : c ≠ 'n' := Text.ne_of_class hdigit rfl
      have ht : c ≠ 't' := Text.ne_of_class hdigit rfl
      have hf : c ≠ 'f' := Text.ne_of_class hdigit rfl
      simp only [hn, ht, hf, hminus, hdigit, if_false, if_true]
      exact ⟨by simp [lift, hskip, Except.map], Nat.le_of_lt_succ hlength⟩
  · have hskip := skipChars_of_chars hchars
    have hlength := length_skipChars_lt hskip
    simp only [hc, Char.reduceEq, if_false, if_true]
    rw [if_neg (by decide), advance_bind]
    exact ⟨by simp [lift, show skipChars tail = .ok rest from hskip, Except.map],
      Nat.le_of_lt hlength⟩

/-! ## Values -/

/-- Passing over a value that starts at `text` leads to `rest` with the same stack, whatever the stack
    is, and takes fewer than four rounds for each character. -/
def PassesOver (text rest : List Char) : Prop :=
  ∃ cost, cost + 2 + 4 * rest.length ≤ 4 * text.length ∧
    ∀ rounds stack, skipValue (rounds + cost) stack text = skipRest rounds false stack rest

/-- Passing over the rest of what is open at `text` leads to `rest`, behind where it is closed. -/
def Closes (innermost : Open) (first : Bool) (text rest : List Char) : Prop :=
  ∃ cost, cost + 4 * rest.length ≤ 4 * text.length ∧
    ∀ rounds stack, skipRest (rounds + cost) first (innermost :: stack) text =
      skipRest rounds false stack rest

theorem skipValue_bare (rounds : Nat) (stack : List Open) (text : List Char) :
    skipValue rounds stack (bare text) = skipValue rounds stack text := by
  cases rounds with
  | zero => rfl
  | succ rounds => exact peek_bind_bare _ text

theorem skipRest_close {innermost : Open} {c : Char} (rounds : Nat) (first : Bool)
    (outer : List Open) {text rest : List Char} (hclosed : innermost.closedBy c = true)
    (h : bare text = c :: rest) :
    skipRest (rounds + 1) first (innermost :: outer) text = skipRest rounds false outer rest := by
  rw [skipRest, peek_bind_cons _ h]
  simp only [hclosed, if_true]
  rw [advance_bind]

theorem skipRest_comma {first : Bool} {text start tail : List Char} {c : Char} (rounds : Nat)
    (innermost : Open) (outer : List Open) (hcomma : Comma first text start)
    (h : bare start = c :: tail) (hclosed : innermost.closedBy c = false) :
    ∃ mid, bare mid = bare start ∧
      skipRest (rounds + 1) first (innermost :: outer) text = skipItem rounds innermost outer mid := by
  rw [skipRest]
  cases first with
  | true =>
    cases hcomma
    refine ⟨bare text, bare_bare text, ?_⟩
    rw [peek_bind_cons _ h]
    simp [hclosed, h]
  | false =>
    refine ⟨start, rfl, ?_⟩
    have hnot : innermost.closedBy ',' = false := by cases innermost <;> rfl
    rw [peek_bind_cons _ hcomma]
    simp only [hnot, Bool.false_eq_true, if_false, if_true]
    rw [advance_bind]

theorem closes_of_elements {item : Reader Json} {first : Bool} {text rest : List Char}
    {items : List Json} (h : Elements item first text items rest)
    (hitem : ∀ {text json rest}, item text = .ok (json, rest) → PassesOver text rest) :
    Closes .array first text rest := by
  induction h with
  | @done first text rest hbare =>
    refine ⟨1, ?_, fun rounds stack => skipRest_close rounds first stack rfl hbare⟩
    have := length_bare_le text
    rw [hbare, List.length_cons] at this
    omega
  | @more first text start tail behind rest c x xs hcomma hbare hc hread _ ih =>
    obtain ⟨own, hown, hskip⟩ := hitem hread
    obtain ⟨later, hlater, hrest⟩ := ih
    -- An element takes two rounds besides those for its value.
    refine ⟨later + own + 2, ?_, fun rounds stack => ?_⟩
    · have := length_le_of_comma hcomma
      have := length_bare_le start
      rw [hbare] at this
      omega
    · have hnot : Open.array.closedBy c = false := by simpa [Open.closedBy] using hc
      obtain ⟨mid, hmid, hstep⟩ :=
        skipRest_comma (rounds + (later + own) + 1) .array stack hcomma hbare hnot
      calc skipRest (rounds + (later + own + 2)) first (.array :: stack) text
          = skipItem (rounds + (later + own) + 1) .array stack mid := hstep
        _ = skipValue (rounds + later + own) (.array :: stack) mid := by
          rw [skipItem, Nat.add_assoc]
        _ = skipValue (rounds + later + own) (.array :: stack) (c :: tail) := by
          rw [← skipValue_bare, hmid, hbare]
        _ = skipRest rounds false stack rest := by rw [hskip, hrest]

theorem skipKey_of_key {text tail behindKey mid : List Char} {k : String}
    (hbare : bare text = '"' :: tail) (hkey : chars tail = .ok (k, behindKey))
    (hcolon : bare behindKey = ':' :: mid) : skipKey text = .ok ((), mid) := by
  rw [skipKey, peek_bind_cons _ hbare]
  simp only [if_true]
  rw [advance_bind, bind_eq_ok_iff]
  exact ⟨(), behindKey, by simp [lift, skipChars_of_chars hkey, Except.map],
    colon_eq_ok_iff.mpr hcolon⟩

theorem closes_of_members {item : Reader Json} {first : Bool} {text rest : List Char}
    {members : List (String × Json)} (h : Members item first text members rest)
    (hitem : ∀ {text json rest}, item text = .ok (json, rest) → PassesOver text rest) :
    Closes .object first text rest := by
  induction h with
  | @done first text rest hbare =>
    refine ⟨1, ?_, fun rounds stack => skipRest_close rounds first stack rfl hbare⟩
    have := length_bare_le text
    rw [hbare, List.length_cons] at this
    omega
  | @more first text start tail behindKey mid behind rest k x xs hcomma hbare hkey hcolon hread _ ih =>
    obtain ⟨own, hown, hskip⟩ := hitem hread
    obtain ⟨later, hlater, hrest⟩ := ih
    refine ⟨later + own + 2, ?_, fun rounds stack => ?_⟩
    · have := length_le_of_comma hcomma
      have hstart := length_bare_le start
      have hbehind := length_bare_le behindKey
      have := length_skipChars_lt (skipChars_of_chars hkey)
      rw [hbare, List.length_cons] at hstart
      rw [hcolon, List.length_cons] at hbehind
      omega
    · obtain ⟨place, hplace, hstep⟩ :=
        skipRest_comma (rounds + (later + own) + 1) .object stack hcomma hbare rfl
      calc skipRest (rounds + (later + own + 2)) first (.object :: stack) text
          = skipItem (rounds + (later + own) + 1) .object stack place := hstep
        _ = skipValue (rounds + later + own) (.object :: stack) mid := by
          rw [skipItem, bind_of_ok _ (skipKey_of_key (hplace.trans hbare) hkey hcolon), Nat.add_assoc]
        _ = skipRest rounds false stack rest := by rw [hskip, hrest]

theorem passesOver_of_value {n : Nat} {text rest : List Char} {json : Json}
    (h : value n text = .ok (json, rest)) : PassesOver text rest := by
  -- The induction is on the nesting: what is inside an array or object has one level less.
  induction n using Nat.strongRecOn generalizing text json rest with
  | ind n ih =>
    have hlength := length_bare_le text
    rcases value_cases h with ⟨c, tail, hbare, harray, hobject, hscalar⟩ |
      ⟨m, body, items, rfl, hbare, -, -, hitems⟩ | ⟨m, body, members, rfl, hbare, -, -, hmembers⟩
    · obtain ⟨hskip, hle⟩ := skipScalar_of_scalar hscalar
      rw [hbare, List.length_cons] at hlength
      refine ⟨1, by omega, fun rounds stack => ?_⟩
      rw [skipValue, peek_bind_cons _ hbare]
      simp only [harray, hobject, if_false]
      exact bind_of_ok _ hskip
    · obtain ⟨cost, hcost, hrest⟩ :=
        closes_of_elements hitems fun hread => ih m (Nat.lt_succ_self m) hread
      rw [hbare, List.length_cons] at hlength
      refine ⟨cost + 1, by omega, fun rounds stack => ?_⟩
      rw [← Nat.add_assoc, skipValue, peek_bind_cons _ hbare]
      simp only [if_true]
      rw [advance_bind, hrest]
    · obtain ⟨cost, hcost, hrest⟩ :=
        closes_of_members hmembers fun hread => ih m (Nat.lt_succ_self m) hread
      rw [hbare, List.length_cons] at hlength
      refine ⟨cost + 1, by omega, fun rounds stack => ?_⟩
      rw [← Nat.add_assoc, skipValue, peek_bind_cons _ hbare]
      simp only [Char.reduceEq, if_false, if_true]
      rw [advance_bind, hrest]

theorem anything_of_value {n : Nat} {text rest : List Char} {json : Json}
    (h : value n text = .ok (json, rest)) : anything text = .ok ((), rest) := by
  obtain ⟨cost, hcost, hskip⟩ := passesOver_of_value h
  have hrounds : 4 * text.length + 4 = (4 * text.length + 4 - cost) + cost := by omega
  change skipValue (4 * text.length + 4) [] text = .ok ((), rest)
  rw [hrounds, hskip]
  cases 4 * text.length + 4 - cost <;> rfl

end Reader

end CodeOutline.Json
