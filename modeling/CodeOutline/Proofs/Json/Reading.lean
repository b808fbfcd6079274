import CodeOutline.Json.Reader

/-! # What the readers of JSON take

A reader is a program that takes its way through a text character by character.  This module says for
each of them what it has taken when it succeeds, so that no later proof has to run them again.

Arrays and objects are read by loops that carry rounds.  `Elements` and `Members` describe what such a
loop takes without any rounds; `elementsIn_eq_ok_iff` and `membersIn_eq_ok_iff` say that nothing else
about the rounds matters than that there are enough of them.-/

namespace CodeOutline.Json.Reader

variable {α β σ : Type}

/-! ## Steps of a reader -/

theorem bind_of_ok {reader : Reader α} {text rest : List Char} {a : α} (next : α → Reader β)
    (h : reader text = .ok (a, rest)) : (reader >>= next) text = next a rest := by
  change (reader text >>= fun p => next p.1 p.2) = next a rest
  rw [h]
  rfl

theorem bind_of_error {reader : Reader α} {text : List Char} {fault : Fault} (next : α → Reader β)
    (h : reader text = .error fault) : (reader >>= next) text = .error fault := by
  change (reader text >>= fun p => next p.1 p.2) = .error fault
  rw [h]
  rfl

theorem bind_eq_ok_iff {reader : Reader α} {next : α → Reader β} {text rest : List Char} {b : β} :
    (reader >>= next) text = .ok (b, rest) ↔
      ∃ a mid, reader text = .ok (a, mid) ∧ next a mid = .ok (b, rest) := by
  constructor
  · intro h
    cases hread : reader text with
    | error fault =>
      rw [bind_of_error next hread] at h
      cases h
    | ok result =>
      rw [bind_of_ok next hread] at h
      exact ⟨result.1, result.2, rfl, h⟩
  · rintro ⟨a, mid, hread, hnext⟩
    rw [bind_of_ok next hread, hnext]

theorem pure_eq_ok_iff {a b : α} {text rest : List Char} :
    (pure a : Reader α) text = .ok (b, rest) ↔ a = b ∧ text = rest := by
  change Except.ok (a, text) = .ok (b, rest) ↔ _
  simp

theorem fail_ne_ok {fault : Fault} {text : List Char} {result : α × List Char} :
    (fail fault : Reader α) text ≠ .ok result := nofun

theorem get_eq_ok_iff {text seen rest : List Char} :
    (get : Reader (List Char)) text = .ok (seen, rest) ↔ text = seen ∧ text = rest := by
  change Except.ok (text, text) = .ok (seen, rest) ↔ _
  simp

/-! ## Blanks and single characters -/

/-- A text without the blanks at its front. -/
def bare (text : List Char) : List Char :=
  text.dropWhile isJsonBlank

theorem bare_bare (text : List Char) : bare (bare text) = bare text := by
  have hhead := List.head?_dropWhile_not isJsonBlank text
  unfold bare
  cases h : text.dropWhile isJsonBlank with
  | nil => rfl
  | cons c rest =>
    rw [h] at hhead
    simp_all

theorem bare_cons {c : Char} (rest : List Char) (h : isJsonBlank c = false) :
    bare (c :: rest) = c :: rest := by
  simp [bare, h]

theorem bare_eq_cons {text rest : List Char} {c : Char} (h : bare text = c :: rest) :
    bare (c :: rest) = c :: rest := by
  rw [← h, bare_bare]

theorem length_bare_le (text : List Char) : (bare text).length ≤ text.length :=
  (List.dropWhile_sublist _).length_le

theorem peek_eq_ok_iff {text mid : List Char} {c : Option Char} :
    peek text = .ok (c, mid) ↔ (bare text).head? = c ∧ bare text = mid := by
  change Except.ok ((bare text).head?, bare text) = .ok (c, mid) ↔ _
  simp

theorem peek_bare (text : List Char) : peek (bare text) = peek text := by
  change Except.ok ((bare (bare text)).head?, bare (bare text)) = .ok ((bare text).head?, bare text)
  rw [bare_bare]

/-- A reader that looks first does not mind blanks. -/
theorem peek_bind_bare (next : Option Char → Reader β) (text : List Char) :
    (peek >>= next) (bare text) = (peek >>= next) text := by
  change (peek (bare text) >>= fun p => next p.1 p.2) = (peek text >>= fun p => next p.1 p.2)
  rw [peek_bare]

/-- What a reader does that looks first, if there is something to look at. -/
theorem peek_bind_cons {text tail : List Char} {c : Char} (next : Option Char → Reader β)
    (h : bare text = c :: tail) : (peek >>= next) text = next (some c) (c :: tail) :=
  bind_of_ok next (peek_eq_ok_iff.mpr (by simp [h]))

theorem peek_bind_nil {text : List Char} (next : Option Char → Reader β) (h : bare text = []) :
    (peek >>= next) text = next none [] :=
  bind_of_ok next (peek_eq_ok_iff.mpr (by simp [h]))

theorem advance_bind (c : Char) (next : Unit → Reader β) (rest : List Char) :
    (advance >>= next) (c :: rest) = next () rest :=
  rfl

theorem letters_eq_ok_iff {chars text rest : List Char} {u : Unit} :
    letters chars text = .ok (u, rest) ↔ text = chars ++ rest := by
  induction chars generalizing text with
  | nil => simp [letters]
  | cons c chars ih =>
    cases text with
    | nil => simp [letters]
    | cons d text =>
      simp only [letters]
      split
      · rename_i hcd
        simp [hcd, ih]
      · rename_i hcd
        simp [Ne.symm hcd]

/-- A reader that takes one expected character. -/
theorem peek_advance_eq_ok_iff {d : Char} {text rest : List Char} {u : Unit} :
    (peek >>= fun
      | none => fail .endOfText
      | some c => if c = d then advance else fail .malformed) text = .ok (u, rest) ↔
      bare text = d :: rest := by
  cases h : bare text with
  | nil =>
    rw [peek_bind_nil _ h]
    simp [fail]
  | cons c tail =>
    rw [peek_bind_cons _ h]
    by_cases hc : c = d
    · simp [hc, advance]
    · simp [hc, fail]

theorem colon_eq_ok_iff {text rest : List Char} {u : Unit} :
    colon text = .ok (u, rest) ↔ bare text = ':' :: rest :=
  peek_advance_eq_ok_iff

theorem closeArray_eq_ok_iff {text rest : List Char} {u : Unit} :
    closeArray text = .ok (u, rest) ↔ bare text = ']' :: rest :=
  peek_advance_eq_ok_iff

/-! ## Elements -/

/-- `start` is where the next element or member starts: behind a comma, unless it is the first. -/
def Comma (first : Bool) (text start : List Char) : Prop :=
  if first then start = text else bare text = ',' :: start

theorem length_le_of_comma {first : Bool} {text start : List Char} (h : Comma first text start) :
    start.length ≤ text.length := by
  cases first with
  | true => exact Nat.le_of_eq (congrArg List.length h)
  | false =>
    have := length_bare_le text
    rw [h, List.length_cons] at this
    omega

/-- What the loop over the elements of an array takes, its bracket included. -/
inductive Elements (item : Reader α) : Bool → List Char → List α → List Char → Prop where
  | done {first : Bool} {text rest : List Char} :
      bare text = ']' :: rest → Elements item first text [] rest
  | more {first : Bool} {text start tail behind rest : List Char} {c : Char} {x : α} {xs : List α} :
      Comma first text start → bare start = c :: tail → c ≠ ']' →
      item (c :: tail) = .ok (x, behind) → Elements item false behind xs rest →
      Elements item first text (x :: xs) rest

/-- Either the bracket follows, or an element does behind a comma where one is due. -/
theorem moreElements_eq_ok_iff {first more : Bool} {text mid : List Char} :
    moreElements first text = .ok (more, mid) ↔
      (more = false ∧ ∃ rest, bare text = ']' :: rest ∧ ']' :: rest = mid) ∨
      (more = true ∧ ∃ start c tail, Comma first text start ∧ bare start = c :: tail ∧ c ≠ ']' ∧
        c :: tail = mid) := by
  unfold moreElements Comma
  cases h : bare text with
  | nil =>
    rw [peek_bind_nil _ h]
    cases first <;> simp [fail, h]
  | cons c tail =>
    rw [peek_bind_cons _ h]
    dsimp only
    by_cases hclose : c = ']'
    · cases first <;> simp [hclose, pure_eq_ok_iff, h]
    · cases first with
      | true => simp [pure_eq_ok_iff, h, hclose, and_assoc]
      | false =>
        by_cases hcomma : c = ','
        · simp only [hcomma, Char.reduceEq, Bool.false_eq_true, if_false, if_true, advance_bind]
          cases hnext : bare tail with
          | nil =>
            rw [peek_bind_nil _ hnext]
            simp [fail, hnext]
          | cons d behind =>
            rw [peek_bind_cons _ hnext]
            by_cases hd : d = ']'
            · simp [fail, hnext, hd]
            · simp [pure_eq_ok_iff, hnext, hd, and_assoc]
        · simp [fail, hclose, hcomma]

theorem moreElements_eq_false_iff {first : Bool} {text mid : List Char} :
    moreElements first text = .ok (false, mid) ↔ ∃ rest, bare text = ']' :: rest ∧ ']' :: rest = mid := by
  simp [moreElements_eq_ok_iff]

theorem moreElements_eq_true_iff {first : Bool} {text mid : List Char} :
    moreElements first text = .ok (true, mid) ↔
      ∃ start c tail, Comma first text start ∧ bare start = c :: tail ∧ c ≠ ']' ∧ c :: tail = mid := by
  simp [moreElements_eq_ok_iff]

/-- A round of the loop over elements. -/
theorem elementsIn_cons (item : Reader α) (round : Char) (rounds : List Char) (first : Bool)
    (text : List Char) :
    elementsIn item (round :: rounds) first text =
      (moreElements first >>= fun more =>
        if more then item >>= fun x => elementsIn item rounds false >>= fun xs => pure (x :: xs)
        else pure []) text :=
  rfl

theorem elementsIn_eq_ok_iff {item : Reader α} {rounds text mid : List Char} {first : Bool}
    {xs : List α} :
    elementsIn item rounds first text = .ok (xs, mid) ↔
      xs.length < rounds.length ∧ ∃ rest, ']' :: rest = mid ∧ Elements item first text xs rest := by
  induction rounds generalizing first text xs with
  | nil => simp [elementsIn, fail]
  | cons round rounds ih =>
    rw [elementsIn_cons, bind_eq_ok_iff]
    constructor
    · rintro ⟨more, start, hmore, h⟩
      cases more with
      | false =>
        obtain ⟨rest, hbare, rfl⟩ := moreElements_eq_false_iff.mp hmore
        obtain ⟨rfl, rfl⟩ := pure_eq_ok_iff.mp h
        exact ⟨Nat.succ_pos _, rest, rfl, .done hbare⟩
      | true =>
        obtain ⟨start, c, tail, hcomma, hbare, hc, rfl⟩ := moreElements_eq_true_iff.mp hmore
        simp only [if_true, bind_eq_ok_iff, pure_eq_ok_iff] at h
        obtain ⟨x, behind, hitem, xs, _, hrest, rfl, rfl⟩ := h
        obtain ⟨hlength, rest, rfl, hxs⟩ := ih.mp hrest
        exact ⟨Nat.succ_lt_succ hlength, rest, rfl, .more hcomma hbare hc hitem hxs⟩
    · rintro ⟨hlength, rest, rfl, h⟩
      cases h with
      | done hbare =>
        exact ⟨false, _, moreElements_eq_false_iff.mpr ⟨rest, hbare, rfl⟩, rfl⟩
      | more hcomma hbare hc hitem hxs =>
        refine ⟨true, _, moreElements_eq_true_iff.mpr ⟨_, _, _, hcomma, hbare, hc, rfl⟩, ?_⟩
        simp only [if_true, bind_eq_ok_iff, pure_eq_ok_iff]
        exact ⟨_, _, hitem, _, _, ih.mpr ⟨Nat.lt_of_succ_lt_succ hlength, rest, rfl, hxs⟩, rfl, rfl⟩

theorem elements_eq_ok_iff {item : Reader α} {text rest : List Char} {xs : List α} :
    elements item text = .ok (xs, rest) ↔
      xs.length ≤ text.length ∧ Elements item true text xs rest := by
  unfold elements
  simp only [bind_eq_ok_iff, get_eq_ok_iff, pure_eq_ok_iff, elementsIn_eq_ok_iff,
    closeArray_eq_ok_iff]
  constructor
  · rintro ⟨_, _, ⟨rfl, rfl⟩, _, _, ⟨hlength, behind, rfl, hxs⟩, _, rest, hclose, rfl, rfl⟩
    obtain rfl : behind = rest := by simpa [bare, isJsonBlank] using hclose
    exact ⟨Nat.le_of_lt_succ hlength, hxs⟩
  · rintro ⟨hlength, hxs⟩
    exact ⟨_, _, ⟨rfl, rfl⟩, _, _, ⟨Nat.lt_succ_of_le hlength, _, rfl, hxs⟩, (), _,
      by simp [bare, isJsonBlank], rfl, rfl⟩

/-! ## Members -/

/-- Gathers members with their keys, the last one first. -/
def gather (item : Reader α) (gathered : List (String × α)) (k : String) :
    Reader (List (String × α)) := do
  colon
  return (k, ← item) :: gathered

/-- What the loop over the members of an object takes, its brace included. -/
inductive Members (item : Reader α) : Bool → List Char → List (String × α) → List Char → Prop where
  | done {first : Bool} {text rest : List Char} :
      bare text = '\x7d' :: rest → Members item first text [] rest
  | more {first : Bool} {text start tail behindKey mid behind rest : List Char} {k : String} {x : α}
      {xs : List (String × α)} :
      Comma first text start → bare start = '"' :: tail → chars tail = .ok (k, behindKey) →
      bare behindKey = ':' :: mid → item mid = .ok (x, behind) → Members item false behind xs rest →
      Members item first text ((k, x) :: xs) rest

/-- Either the brace follows, or the quote of a key does behind a comma where one is due. -/
theorem moreMembers_eq_ok_iff {first more : Bool} {text mid : List Char} :
    moreMembers first text = .ok (more, mid) ↔
      (more = false ∧ ∃ rest, bare text = '\x7d' :: rest ∧ '\x7d' :: rest = mid) ∨
      (more = true ∧ ∃ start tail, Comma first text start ∧ bare start = '"' :: tail ∧
        '"' :: tail = mid) := by
  unfold moreMembers Comma
  cases h : bare text with
  | nil =>
    rw [peek_bind_nil _ h]
    cases first <;> simp [fail, h]
  | cons c tail =>
    rw [peek_bind_cons _ h]
    dsimp only
    by_cases hclose : c = '\x7d'
    · cases first <;> simp [hclose, pure_eq_ok_iff, h]
    · cases first with
      | true =>
        by_cases hquote : c = '"'
        · simp [hquote, pure_eq_ok_iff, h]
        · simp [hclose, hquote, fail, h]
      | false =>
        by_cases hcomma : c = ','
        · simp only [hcomma, Char.reduceEq, Bool.false_eq_true, if_false, if_true, advance_bind]
          cases hnext : bare tail with
          | nil =>
            rw [peek_bind_nil _ hnext]
            simp [fail, hnext]
          | cons d behind =>
            rw [peek_bind_cons _ hnext]
            by_cases hd : d = '"'
            · simp [pure_eq_ok_iff, hnext, hd]
            · simp [fail, hnext, hd]
        · simp [fail, hclose, hcomma]

theorem moreMembers_eq_false_iff {first : Bool} {text mid : List Char} :
    moreMembers first text = .ok (false, mid) ↔
      ∃ rest, bare text = '\x7d' :: rest ∧ '\x7d' :: rest = mid := by
  simp [moreMembers_eq_ok_iff]

theorem moreMembers_eq_true_iff {first : Bool} {text mid : List Char} :
    moreMembers first text = .ok (true, mid) ↔
      ∃ start tail, Comma first text start ∧ bare start = '"' :: tail ∧ '"' :: tail = mid := by
  simp [moreMembers_eq_ok_iff]

/-- A round of the loop over members. -/
theorem membersIn_cons (member : σ → String → Reader σ) (round : Char) (rounds : List Char)
    (first : Bool) (gathered : σ) (text : List Char) :
    membersIn member (round :: rounds) first gathered text =
      (moreMembers first >>= fun more =>
        if more then
          key >>= fun k => member gathered k >>= fun next => membersIn member rounds false next
        else pure gathered) text :=
  rfl

theorem key_quote (tail : List Char) : key ('"' :: tail) = chars tail :=
  rfl

theorem gather_eq_ok_iff {item : Reader α} {gathered all : List (String × α)} {k : String}
    {text rest : List Char} :
    gather item gathered k text = .ok (all, rest) ↔
      ∃ mid x, bare text = ':' :: mid ∧ item mid = .ok (x, rest) ∧ (k, x) :: gathered = all := by
  unfold gather
  simp only [bind_eq_ok_iff, pure_eq_ok_iff, colon_eq_ok_iff]
  constructor
  · rintro ⟨_, mid, hcolon, x, _, hitem, rfl, rfl⟩
    exact ⟨mid, x, hcolon, hitem, rfl⟩
  · rintro ⟨mid, x, hcolon, hitem, rfl⟩
    exact ⟨(), mid, hcolon, x, _, hitem, rfl, rfl⟩

theorem membersIn_gather_eq_ok_iff {item : Reader α} {rounds text mid : List Char} {first : Bool}
    {gathered all : List (String × α)} :
    membersIn (gather item) rounds first gathered text = .ok (all, mid) ↔
      ∃ xs rest, xs.length < rounds.length ∧ '\x7d' :: rest = mid ∧ xs.reverse ++ gathered = all ∧
        Members item first text xs rest := by
  induction rounds generalizing first text gathered with
  | nil => simp [membersIn, fail]
  | cons round rounds ih =>
    rw [membersIn_cons, bind_eq_ok_iff]
    constructor
    · rintro ⟨more, start, hmore, h⟩
      cases more with
      | false =>
        obtain ⟨rest, hbare, rfl⟩ := moreMembers_eq_false_iff.mp hmore
        obtain ⟨rfl, rfl⟩ := pure_eq_ok_iff.mp h
        exact ⟨[], rest, Nat.succ_pos _, rfl, rfl, .done hbare⟩
      | true =>
        obtain ⟨start, tail, hcomma, hbare, rfl⟩ := moreMembers_eq_true_iff.mp hmore
        simp only [if_true, bind_eq_ok_iff, key_quote, gather_eq_ok_iff] at h
        obtain ⟨k, behindKey, hkey, _, behind, ⟨mid, x, hcolon, hitem, rfl⟩, hrest⟩ := h
        obtain ⟨xs, rest, hlength, rfl, rfl, hxs⟩ := ih.mp hrest
        exact ⟨(k, x) :: xs, rest, Nat.succ_lt_succ hlength, rfl, by simp,
          .more hcomma hbare hkey hcolon hitem hxs⟩
    · rintro ⟨xs, rest, hlength, rfl, rfl, h⟩
      cases h with
      | done hbare =>
        exact ⟨false, _, moreMembers_eq_false_iff.mpr ⟨rest, hbare, rfl⟩, rfl⟩
      | more hcomma hbare hkey hcolon hitem hxs =>
        refine ⟨true, _, moreMembers_eq_true_iff.mpr ⟨_, _, hcomma, hbare, rfl⟩, ?_⟩
        simp only [if_true, bind_eq_ok_iff, key_quote, gather_eq_ok_iff]
        exact ⟨_, _, hkey, _, _, ⟨_, _, hcolon, hitem, rfl⟩,
          ih.mpr ⟨_, rest, Nat.lt_of_succ_lt_succ hlength, rfl, by simp, hxs⟩⟩

theorem members_gather_eq_ok_iff {item : Reader α} {text rest : List Char}
    {all : List (String × α)} :
    members (gather item) [] text = .ok (all, rest) ↔
      all.length ≤ text.length ∧ Members item true text all.reverse rest := by
  unfold members
  simp only [bind_eq_ok_iff, get_eq_ok_iff, pure_eq_ok_iff, membersIn_gather_eq_ok_iff]
  constructor
  · rintro ⟨_, _, ⟨rfl, rfl⟩, _, _, ⟨xs, _, hlength, rfl, rfl, hxs⟩, _, _, hclose, rfl, rfl⟩
    cases hclose
    simp only [List.length_cons] at hlength
    simp only [List.append_nil, List.length_reverse, List.reverse_reverse]
    exact ⟨Nat.le_of_lt_succ hlength, hxs⟩
  · rintro ⟨hlength, hxs⟩
    exact ⟨_, _, ⟨rfl, rfl⟩, _, _, ⟨_, rest, by simpa using Nat.lt_succ_of_le hlength, rfl, by simp,
      hxs⟩, (), rest, rfl, rfl, rfl⟩

end CodeOutline.Json.Reader
