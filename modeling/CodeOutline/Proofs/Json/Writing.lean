import CodeOutline.Json.Writer
import CodeOutline.Proofs.Json.Documents

/-! # Reading what has been written

A document that is written without blanks is read as the same document, with the text behind it left
over.  Two things can stand in the way: a number that has more than 64 bits or is kept as it was
written, and arrays and objects nested beyond the limit.  `fits` excludes these.

Numbers have no end of their own, so that what follows a document matters: it has to be nothing, a comma,
a closing bracket or brace, or the end of the line (`Closed`).
-/

namespace CodeOutline.Json

/-- Whether a document can be written and read again with `n` arrays and objects open at most. -/
def fits : Nat → Json → Bool
  | _, null => true
  | _, bool _ => true
  | _, natural k => k ≤ Word.max64
  | _, decimal _ => false
  | _, string _ => true
  | 0, array _ => false
  | n + 1, array items => items.all (fits n)
  | 0, object _ => false
  | n + 1, object members => members.all fun member => fits n member.2

/-- What may stand behind a document: nothing, or what separates or closes. -/
def Closed (rest : List Char) : Prop :=
  ∀ c ∈ rest.head?, c ∈ [',', ']', '\x7d', '\n']

/-! ## Numbers -/

theorem le_ofDigitChars (digits : List Char) (n : Nat) : n ≤ Nat.ofDigitChars 10 digits n := by
  induction digits generalizing n with
  | nil => simp
  | cons c digits ih =>
    rw [Nat.ofDigitChars_cons]
    exact Nat.le_trans (by omega) (ih _)

theorem absorb_of_le {limit : Nat} {digits : List Char} {n : Nat}
    (h : Nat.ofDigitChars 10 digits n ≤ limit) :
    absorb limit n digits = (Nat.ofDigitChars 10 digits n, 0) := by
  induction digits generalizing n with
  | nil => simp [absorb]
  | cons c digits ih =>
    rw [Nat.ofDigitChars_cons, Nat.mul_comm] at h ⊢
    have hle : n * 10 + digitValue c ≤ limit := Nat.le_trans (le_ofDigitChars digits _) h
    rw [absorb, if_pos hle]
    exact ih h

/-- Only zero is written with a zero in front. -/
theorem eq_zero_of_toDigits {n : Nat} {rest : List Char} (h : Nat.toDigits 10 n = '0' :: rest) :
    n = 0 := by
  induction n using Nat.strongRecOn generalizing rest with
  | ind n ih =>
    -- All but the last digit are those of `n / 10`, so that the front is settled by the induction.
    rw [Nat.toDigits_eq_if (by decide)] at h
    split at h
    · have hdigit : ∀ k < 10, Nat.digitChar k = '0' → k = 0 := by decide
      exact hdigit n ‹_› (List.cons.inj h).1
    · cases hfront : Nat.toDigits 10 (n / 10) with
      | nil => exact absurd hfront Nat.toDigits_ne_nil
      | cons c front =>
        rw [hfront] at h
        obtain rfl := (List.cons.inj h).1
        have := ih (n / 10) (by omega) hfront
        omega

theorem closed_cases {c : Char} {rest : List Char} (h : Closed (c :: rest)) :
    c = ',' ∨ c = ']' ∨ c = '\x7d' ∨ c = '\n' := by
  simpa using h c rfl

theorem no_digits_of_closed {rest : List Char} (h : Closed rest) :
    rest.head?.any Char.isDigit = false ∧ rest.takeWhile Char.isDigit = [] ∧
      rest.dropWhile Char.isDigit = rest := by
  cases rest with
  | nil => exact ⟨rfl, rfl, rfl⟩
  | cons c rest => obtain rfl | rfl | rfl | rfl := closed_cases h <;> exact ⟨rfl, rfl, rfl⟩

theorem readAfterInteger_of_closed (n : Nat) {rest : List Char} (h : Closed rest) :
    readAfterInteger n 0 rest = .ok (true, rest) := by
  cases rest with
  | nil => rfl
  | cons c rest => obtain rfl | rfl | rfl | rfl := closed_cases h <;> rfl

theorem toDigits_eq_cons (n : Nat) :
    ∃ c digits, Nat.toDigits 10 n = c :: digits ∧ ∀ d ∈ c :: digits, d.isDigit = true := by
  cases htext : Nat.toDigits 10 n with
  | nil => exact absurd htext Nat.toDigits_ne_nil
  | cons c digits =>
    refine ⟨c, digits, rfl, fun d hd => ?_⟩
    rw [← htext] at hd
    exact Nat.isDigit_of_mem_toDigits (by decide) (by decide) hd

theorem readUnsigned_toDigits {n : Nat} {rest : List Char} (hn : n ≤ Word.max64)
    (hrest : Closed rest) :
    readUnsigned (Nat.toDigits 10 n ++ rest) = .ok (true, n, rest) := by
  obtain ⟨c, digits, htext, hdigits⟩ := toDigits_eq_cons n
  obtain ⟨hnext, hnone, hall⟩ := no_digits_of_closed hrest
  have hvalue : absorb Word.max64 0 (Nat.toDigits 10 n) = (n, 0) := by
    rw [absorb_of_le] <;> rw [Nat.ofDigitChars_ten_toDigits]
    exact hn
  by_cases hc : c = '0'
  · subst hc
    obtain rfl := eq_zero_of_toDigits htext
    simp [readUnsigned, hnext, readAfterInteger_of_closed 0 hrest, Except.map]
  · rw [htext] at hvalue ⊢
    have htake : (c :: digits ++ rest).takeWhile Char.isDigit = c :: digits := by
      rw [List.takeWhile_append_of_pos hdigits, hnone, List.append_nil]
    have hdrop : (c :: digits ++ rest).dropWhile Char.isDigit = rest := by
      rw [List.dropWhile_append_of_pos hdigits, hall]
    rw [readUnsigned.eq_def]
    simp only [List.cons_append] at htake hdrop ⊢
    simp [hdigits c, htake, hdrop, hvalue, readAfterInteger_of_closed n hrest, Except.map]

theorem readNumber_toDigits {n : Nat} {rest : List Char} (hn : n ≤ Word.max64) (hrest : Closed rest) :
    readNumber (Nat.toDigits 10 n ++ rest) = .ok (.natural n, rest) := by
  obtain ⟨c, digits, htext, hdigits⟩ := toDigits_eq_cons n
  have hread := readUnsigned_toDigits hn hrest
  unfold readNumber
  dsimp only
  split
  · rename_i tail hminus
    rw [htext] at hminus
    obtain rfl : c = '-' := (List.cons.inj hminus).1
    exact absurd (hdigits _ List.mem_cons_self) (by decide)
  · rw [hread]
    rfl

/-! ## Strings -/

theorem hexValue?_hexDigit {n : Nat} (h : n < 16) : hexValue? (hexDigit n) = some n := by
  have hall : ∀ n < 16, hexValue? (hexDigit n) = some n := by decide
  exact hall n h

theorem hexValue4?_hexDigit {n : Nat} (h : n < 256) :
    hexValue4? '0' '0' (hexDigit (n / 16)) (hexDigit (n % 16)) = some n := by
  have hzero : hexValue? '0' = some 0 := rfl
  have hhigh := hexValue?_hexDigit (n := n / 16) (by omega)
  have hlow := hexValue?_hexDigit (n := n % 16) (by omega)
  simp only [hexValue4?, hzero, hhigh, hlow, Option.bind_eq_bind, Option.bind_some, Option.pure_def,
    Option.some.injEq]
  omega

/-- A character is written as a letter behind a backslash, as four digits, or as it is. -/
theorem escape_cases (c : Char) :
    (∃ e, escape c = ['\\', e] ∧ unescape? e = some c) ∨
    (c < ' ' ∧
      escape c = ['\\', 'u', '0', '0', hexDigit (c.toNat / 16), hexDigit (c.toNat % 16)]) ∨
    (escape c = [c] ∧ c ≠ '"' ∧ c ≠ '\\' ∧ ¬c < ' ') := by
  unfold escape
  iterate 7
    split
    · exact .inl ⟨_, rfl, by simp_all [unescape?]⟩
  split
  · exact .inr (.inl ⟨‹_›, rfl⟩)
  · exact .inr (.inr ⟨rfl, ‹_›, ‹_›, ‹_›⟩)

theorem readChars_unescape {e c : Char} (h : unescape? e = some c) (text : List Char) :
    readChars ('\\' :: e :: text) = (readChars text).map fun (cs, rest) => (c :: cs, rest) := by
  have he : e ≠ 'u' := by
    rintro rfl
    cases h
  rw [readChars.eq_def]
  simp [he, h]

theorem readChars_escape (c : Char) (text : List Char) :
    readChars (escape c ++ text) = (readChars text).map fun (cs, rest) => (c :: cs, rest) := by
  rcases escape_cases c with ⟨e, hescape, he⟩ | ⟨hc, hescape⟩ | ⟨hescape, hquote, hslash, hc⟩
  · rw [hescape]
    exact readChars_unescape he text
  · rw [hescape]
    have hlt : c.toNat < 32 := hc
    have hvalue := hexValue4?_hexDigit (n := c.toNat) (by omega)
    have htrail : isTrailHalf c.toNat = false := by simp [isTrailHalf]; omega
    have hlead : isLeadHalf c.toNat = false := by simp [isLeadHalf]; omega
    rw [readChars.eq_def]
    simp [hvalue, htrail, hlead, Char.ofNat_toNat]
  · rw [hescape, readChars.eq_def]
    simp [hc]

theorem readChars_flatMap_escape (cs rest : List Char) :
    readChars (cs.flatMap escape ++ '"' :: rest) = .ok (cs, rest) := by
  induction cs with
  | nil => rfl
  | cons c cs ih =>
    rw [List.flatMap_cons, List.append_assoc, readChars_escape, ih]
    rfl

namespace Reader

theorem chars_quoted (s : String) (rest : List Char) :
    chars (s.toList.flatMap escape ++ '"' :: rest) = .ok (s, rest) :=
  chars_eq_ok_iff.mpr ⟨s.toList, readChars_flatMap_escape _ rest, String.ofList_toList⟩

/-! ## Elements and members -/

theorem toList_quoted (s : String) (rest : List Char) :
    (quoted s).toList ++ rest = '"' :: (s.toList.flatMap escape ++ '"' :: rest) := by
  simp [quoted]

theorem closed_cons {c : Char} (rest : List Char) (h : c ∈ [',', ']', '\x7d', '\n']) :
    Closed (c :: rest) := by
  rintro _ ⟨⟩
  exact h

section Separated

variable {α : Type} (write : α → List Char) (xs : List α) {close : List Char}

/-- The texts of things one behind the other, with commas between them. -/
def separated : List α → List Char
  | [] => []
  | x :: xs => write x ++ xs.flatMap fun x => ',' :: write x

theorem closed_flatMap (h : Closed close) :
    Closed ((xs.flatMap fun x => ',' :: write x) ++ close) := by
  cases xs with
  | nil => exact h
  | cons x xs => exact closed_cons _ (by simp)

theorem length_le_flatMap : xs.length ≤ (xs.flatMap fun x => ',' :: write x).length := by
  induction xs with
  | nil => simp
  | cons x xs ih =>
    rw [List.flatMap_cons, List.length_append, List.length_cons, List.length_cons]
    omega

theorem length_le_separated (h : close ≠ []) : xs.length ≤ (separated write xs ++ close).length := by
  cases xs with
  | nil => simp
  | cons x xs =>
    have hrest := length_le_flatMap write xs
    have hclose := List.length_pos_iff.mpr h
    simp only [separated, List.length_append, List.length_cons]
    omega

end Separated

section Behind

-- A writer for documents at some level, and what closes the list of those that are written.
variable {n : Nat} {write : Json → List Char} {close rest : List Char}

theorem elements_cons_of_value {first : Bool} {text start behind : List Char}
    {x : Json} {xs : List Json} (hcomma : Comma first text start)
    (hvalue : value n start = .ok (x, behind)) (hrest : Elements (value n) false behind xs rest) :
    Elements (value n) first text (x :: xs) rest := by
  obtain ⟨c, tail, hbare, hshape⟩ := shape_of_value hvalue
  rw [← value_bare, hbare] at hvalue
  exact .more hcomma hbare hshape.ne_bracket hvalue hrest

theorem elements_behind (hclosed : Closed close) (hclose : bare close = ']' :: rest) {items : List Json}
    (hread : ∀ item ∈ items, ∀ rest, Closed rest → value n (write item ++ rest) = .ok (item, rest)) :
    Elements (value n) false ((items.flatMap fun item => ',' :: write item) ++ close) items rest := by
  induction items with
  | nil => exact .done hclose
  | cons item items ih =>
    rw [List.forall_mem_cons] at hread
    refine elements_cons_of_value ?_ (hread.1 _ (closed_flatMap write items hclosed)) (ih hread.2)
    simp [Comma, bare, isJsonBlank]

theorem elements_separated (hclosed : Closed close) (hclose : bare close = ']' :: rest)
    {items : List Json}
    (hread : ∀ item ∈ items, ∀ rest, Closed rest → value n (write item ++ rest) = .ok (item, rest)) :
    Elements (value n) true (separated write items ++ close) items rest := by
  cases items with
  | nil => exact .done hclose
  | cons item items =>
    rw [List.forall_mem_cons] at hread
    refine elements_cons_of_value ?_ (hread.1 _ (closed_flatMap write items hclosed))
      (elements_behind hclosed hclose hread.2)
    simp [Comma, separated]

-- What stands before a key, which has to be blank.
variable {lead : List Char}

/-- The text of a member. -/
def writtenMember (lead : List Char) (write : Json → List Char) (member : String × Json) : List Char :=
  lead ++ (quoted member.1).toList ++ ':' :: write member.2

theorem members_cons_of_value (hlead : ∀ text, bare (lead ++ text) = bare text) {first : Bool}
    {text behind : List Char} {member : String × Json} {members : List (String × Json)}
    (hcomma : Comma first text (writtenMember lead write member ++ behind))
    (hvalue : value n (write member.2 ++ behind) = .ok (member.2, behind))
    (hrest : Members (value n) false behind members rest) :
    Members (value n) first text (member :: members) rest := by
  refine .more hcomma ?_ (chars_quoted member.1 _) (bare_cons _ rfl) hvalue hrest
  rw [writtenMember, List.append_assoc, List.append_assoc, hlead, List.cons_append, toList_quoted]
  exact bare_cons _ rfl

theorem members_behind (hlead : ∀ text, bare (lead ++ text) = bare text) (hclosed : Closed close)
    (hclose : bare close = '\x7d' :: rest) {members : List (String × Json)}
    (hread : ∀ member ∈ members, ∀ rest, Closed rest →
      value n (write member.2 ++ rest) = .ok (member.2, rest)) :
    Members (value n) false
      ((members.flatMap fun member => ',' :: writtenMember lead write member) ++ close) members
      rest := by
  induction members with
  | nil => exact .done hclose
  | cons member members ih =>
    rw [List.forall_mem_cons] at hread
    refine members_cons_of_value hlead ?_ (hread.1 _ (closed_flatMap _ members hclosed)) (ih hread.2)
    simp [Comma, bare, isJsonBlank]

theorem members_separated (hlead : ∀ text, bare (lead ++ text) = bare text) (hclosed : Closed close)
    (hclose : bare close = '\x7d' :: rest) {members : List (String × Json)}
    (hread : ∀ member ∈ members, ∀ rest, Closed rest →
      value n (write member.2 ++ rest) = .ok (member.2, rest)) :
    Members (value n) true (separated (writtenMember lead write) members ++ close) members rest := by
  cases members with
  | nil => exact .done hclose
  | cons member members =>
    rw [List.forall_mem_cons] at hread
    refine members_cons_of_value hlead ?_ (hread.1 _ (closed_flatMap _ members hclosed))
      (members_behind hlead hclosed hclose hread.2)
    simp [Comma, separated]

end Behind

/-! ## Compact texts -/

theorem toList_compactItems (items : List Json) :
    (compactItems items).toList = separated (fun item => (compact item).toList) items := by
  induction items with
  | nil => rfl
  | cons item items ih =>
    cases items with
    | nil => simp [compactItems, separated]
    | cons next items => simp [compactItems, ih, separated]

theorem toList_compactMembers (members : List (String × Json)) :
    (compactMembers members).toList =
      separated (writtenMember [] fun json => (compact json).toList) members := by
  induction members with
  | nil => rfl
  | cons member members ih =>
    cases members with
    | nil => simp [compactMembers, separated, writtenMember]
    | cons next members => simp [compactMembers, ih, separated, writtenMember]

/-! ## Documents -/

theorem scalar_of_isDigit {c : Char} (h : c.isDigit = true) : scalar c = lift readNumber := by
  simp [scalar, h, Text.ne_of_class h (d := 'n') rfl, Text.ne_of_class h (d := 't') rfl,
    Text.ne_of_class h (d := 'f') rfl]

theorem value_number {n k : Nat} (hk : k ≤ Word.max64) {rest : List Char} (hrest : Closed rest) :
    value n (Nat.toDigits 10 k ++ rest) = .ok (.natural k, rest) := by
  obtain ⟨c, digits, htext, hdigits⟩ := toDigits_eq_cons k
  have hread := readNumber_toDigits hk hrest
  have hc := hdigits c List.mem_cons_self
  have hblank : isJsonBlank c = false := by
    simp [isJsonBlank, Text.ne_of_class hc (d := ' ') rfl, Text.ne_of_class hc (d := '\n') rfl,
      Text.ne_of_class hc (d := '\t') rfl, Text.ne_of_class hc (d := '\r') rfl]
  rw [htext] at hread ⊢
  refine value_of_scalar (bare_cons _ hblank) (Text.ne_of_class hc rfl) (Text.ne_of_class hc rfl) ?_
  rw [scalar_of_isDigit hc]
  exact hread

theorem value_string (n : Nat) (s : String) (rest : List Char) :
    value n ((quoted s).toList ++ rest) = .ok (.string s, rest) := by
  rw [toList_quoted]
  refine value_of_scalar (bare_cons _ rfl) (by decide) (by decide) ?_
  exact bind_eq_ok_iff.mpr ⟨(), _, rfl, bind_eq_ok_iff.mpr ⟨s, rest, chars_quoted s rest, rfl⟩⟩

/-- Scalars are read at any level. -/
theorem value_compact_scalar {n : Nat} {json : Json} (hfits : fits 0 json = true) {rest : List Char}
    (hrest : Closed rest) : value n ((compact json).toList ++ rest) = .ok (json, rest) := by
  -- Arrays and objects do not fit at level zero.
  cases json with
  | null =>
    exact value_of_scalar rfl (by decide) (by decide) (word_eq_ok_iff.mpr ⟨rfl, rfl⟩)
  | bool b =>
    cases b <;> exact value_of_scalar rfl (by decide) (by decide) (word_eq_ok_iff.mpr ⟨rfl, rfl⟩)
  | natural k =>
    rw [compact, Nat.toString_eq_repr, Nat.toList_repr]
    exact value_number (of_decide_eq_true hfits) hrest
  | decimal => cases hfits
  | string s =>
    rw [compact]
    exact value_string n s rest
  | array => cases hfits
  | object => cases hfits

/-- Every document that fits is read from its compact text. -/
theorem value_compact {n : Nat} {json : Json} (hfits : fits n json = true) {rest : List Char}
    (hrest : Closed rest) : value n ((compact json).toList ++ rest) = .ok (json, rest) := by
  induction n generalizing json rest with
  | zero => exact value_compact_scalar hfits hrest
  | succ n ih =>
    cases json with
    | array items =>
      have htext : (compact (.array items)).toList ++ rest =
          '[' :: (separated (fun item => (compact item).toList) items ++ ']' :: rest) := by
        simp [compact, toList_compactItems]
      rw [htext]
      refine value_of_elements (bare_cons _ rfl) (length_le_separated _ items (by simp))
        (elements_separated (closed_cons rest (by simp)) (bare_cons _ rfl) fun item hitem rest => ?_)
      exact ih (List.all_eq_true.mp hfits item hitem)
    | object members =>
      have htext : (compact (.object members)).toList ++ rest =
          '\x7b' :: (separated (writtenMember [] fun json => (compact json).toList) members ++
            '\x7d' :: rest) := by
        simp [compact, toList_compactMembers]
      rw [htext]
      refine value_of_members (bare_cons _ rfl) (length_le_separated _ members (by simp))
        (members_separated (fun _ => rfl) (closed_cons rest (by simp)) (bare_cons _ rfl)
          fun member hmember rest => ?_)
      exact ih (List.all_eq_true.mp hfits member hmember)
    | null | bool | natural | decimal | string =>
      refine value_compact_scalar ?_ hrest
      exact hfits

/-- A document that fits is what its compact text holds. -/
theorem onText_compact {n : Nat} {json : Json} (h : fits n json = true) :
    (value n).onText (compact json) = .ok json := by
  have hclosed : Closed [] := by simp [Closed]
  have hvalue := value_compact h hclosed
  rw [List.append_nil] at hvalue
  exact onText_eq_ok_iff.mpr ⟨[], hvalue, rfl⟩

end Reader

end CodeOutline.Json
