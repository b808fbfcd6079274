import CodeOutline.Json.Decode
import CodeOutline.Proofs.Json.Skipping

/-! # Reading directly and decoding afterwards

A reader that knows what it expects takes it from the text as it goes.  A decoder is given the whole
document and looks at its shape.  `Agrees` says that the two come to the same on every text that can be
read as a document: the reader gives what the decoder makes of the document and stops where the
document ends, or fails if the decoder does.

The readers of `CodeOutline.Json.Direct` agree with the decoders of `CodeOutline.Json.Decode` one by
one: strings, words, values or `null`, lists, and records.  A record may be an array, whose fields are
read in order (`AgreesFields`), or an object, whose members are read as they come (`AgreesMember`).
-/

namespace CodeOutline.Json.Reader

variable {α β σ : Type}

/-! ## Expected results -/

/-- The expected value with the rest of the text, or a fault if nothing is expected. -/
def Gives (result : Except Fault (α × List Char)) (expected : Option α) (rest : List Char) : Prop :=
  match expected with
  | some a => result = .ok (a, rest)
  | none => ∃ fault, result = .error fault

theorem Gives.ok_iff {result : Except Fault (α × List Char)} {expected : Option α}
    {rest : List Char} (h : Gives result expected rest) {a : α} {behind : List Char} :
    result = .ok (a, behind) ↔ expected = some a ∧ rest = behind := by
  cases expected with
  | some b =>
    rw [show result = .ok (b, rest) from h]
    simp
  | none =>
    obtain ⟨fault, rfl⟩ := h
    simp

theorem Gives.bind {reader : Reader α} {next : α → Reader β} {text mid rest : List Char}
    {expected : Option α} {expectedNext : α → Option β} (h : Gives (reader text) expected mid)
    (hnext : ∀ a, Gives (next a mid) (expectedNext a) rest) :
    Gives ((reader >>= next) text) (expected >>= expectedNext) rest := by
  cases expected with
  | some a =>
    rw [bind_of_ok next h]
    exact hnext a
  | none =>
    obtain ⟨fault, hfault⟩ := h
    exact ⟨fault, bind_of_error next hfault⟩

theorem Gives.map {reader : Reader α} {text rest : List Char} {expected : Option α}
    (h : Gives (reader text) expected rest) (f : α → β) :
    Gives ((reader >>= fun a => pure (f a)) text) (expected.map f) rest := by
  rw [Option.map_eq_bind]
  exact h.bind fun _ => rfl

theorem gives_fail (fault : Fault) (text rest : List Char) :
    Gives ((fail fault : Reader α) text) none rest :=
  ⟨fault, rfl⟩

theorem gives_refuse (c : Char) (text rest : List Char) :
    Gives ((refuse c : Reader α) text) none rest := by
  unfold refuse
  split
  · exact gives_fail _ _ _
  · cases h : scalar c text with
    | error fault => exact ⟨fault, bind_of_error _ h⟩
    | ok result =>
      rw [bind_of_ok _ h]
      exact gives_fail _ _ _

/-- On every text that starts with a document, the reader gives what the decoder makes of it. -/
def Agrees (n : Nat) (reader : Reader α) (decode : Json → Option α) : Prop :=
  ∀ ⦃text rest : List Char⦄ ⦃json : Json⦄, value n text = .ok (json, rest) →
    Gives (reader text) (decode json) rest

theorem Agrees.map {n : Nat} {reader : Reader α} {decode : Json → Option α}
    (hreader : Agrees n reader decode) (f : α → β) :
    Agrees n (do return f (← reader)) (fun json => (decode json).map f) :=
  fun _ _ _ h => (hreader h).map f

/-! ## Scalars -/

theorem agrees_string (n : Nat) : Agrees n string string? := by
  intro text rest json h
  obtain ⟨c, tail, hbare, hshape⟩ := shape_of_value h
  unfold string
  rw [peek_bind_cons _ hbare]
  by_cases hc : c = '"'
  · subst hc
    obtain ⟨s, rfl⟩ := hshape.eq_string
    exact hshape.2
  · simp only [hc, if_false]
    cases json with
    | string s => exact absurd hshape.1 hc
    | _ => exact gives_refuse _ _ _

theorem agrees_word32 (n : Nat) : Agrees n word32 word32? := by
  intro text rest json h
  obtain ⟨c, tail, hbare, hshape⟩ := shape_of_value h
  unfold word32
  rw [peek_bind_cons _ hbare]
  simp only [Bool.or_eq_true, decide_eq_true_eq]
  by_cases hc : c = '-' ∨ c.isDigit = true
  · have hread := hshape.eq_number hc
    simp only [hc, if_true]
    rw [bind_of_ok _ (show lift readNumber (c :: tail) = .ok (json, rest) from hread)]
    rcases readNumber_shape hread with ⟨k, rfl⟩ | ⟨written, rfl⟩
    · by_cases hk : k ≤ Word.max32
      · simp only [word32?, hk, if_true]
        rfl
      · simp only [word32?, hk, if_false]
        exact gives_fail _ _ _
    · exact gives_fail _ _ _
  · simp only [hc, if_false]
    cases json with
    | natural k => exact absurd hshape.1 hc
    | _ => exact gives_refuse _ _ _

theorem nullable_null {reader : Reader α} {text tail : List Char} (hbare : bare text = 'n' :: tail) :
    nullable reader text = (letters "null".toList >>= fun _ => pure none) ('n' :: tail) := by
  unfold nullable
  rw [peek_bind_cons _ hbare]
  rfl

theorem nullable_of_ne {reader : Reader α} {text tail : List Char} {c : Char}
    (hbare : bare text = c :: tail) (hc : c ≠ 'n') :
    nullable reader text = (reader >>= fun a => pure (some a)) (c :: tail) := by
  unfold nullable
  rw [peek_bind_cons _ hbare]
  simp [hc]

theorem agrees_nullable {n : Nat} {reader : Reader α} {decode : Json → Option α}
    (hreader : Agrees n reader decode) : Agrees n (nullable reader) (nullable? decode) := by
  intro text rest json h
  obtain ⟨c, tail, hbare, hshape⟩ := shape_of_value h
  by_cases hc : c = 'n'
  · subst hc
    obtain rfl := hshape.eq_null
    rw [nullable_null hbare, bind_of_ok (a := ()) _ (letters_eq_ok_iff.mpr hshape.2)]
    rfl
  · have hvalue : value n (c :: tail) = .ok (json, rest) := by rwa [← hbare, value_bare]
    rw [nullable_of_ne hbare hc]
    cases json with
    | null => exact absurd hshape.1 hc
    | _ => exact (hreader hvalue).map some

/-! ## Lists -/

theorem gives_elementsIn {m : Nat} {item : Reader α} {decode : Json → Option α}
    (hitem : Agrees m item decode) {first : Bool} {text rest rounds : List Char} {items : List Json}
    (h : Elements (value m) first text items rest) (hrounds : items.length < rounds.length) :
    Gives (elementsIn item rounds first text) (items.mapM decode) (']' :: rest) := by
  induction h generalizing rounds with
  | @done first text rest hbare =>
    obtain ⟨round, rounds, rfl⟩ := List.exists_cons_of_length_pos (Nat.zero_lt_of_lt hrounds)
    rw [elementsIn_cons, bind_of_ok _ (moreElements_eq_false_iff.mpr ⟨rest, hbare, rfl⟩)]
    rfl
  | more hcomma hbare hc hvalue _ ih =>
    obtain ⟨round, rounds, rfl⟩ := List.exists_cons_of_length_pos (Nat.zero_lt_of_lt hrounds)
    rw [elementsIn_cons,
      bind_of_ok _ (moreElements_eq_true_iff.mpr ⟨_, _, _, hcomma, hbare, hc, rfl⟩), List.mapM_cons]
    refine (hitem hvalue).bind fun x => ?_
    exact (ih (Nat.lt_of_succ_lt_succ hrounds)).bind fun xs => rfl

theorem gives_elements {m : Nat} {item : Reader α} {decode : Json → Option α}
    (hitem : Agrees m item decode) {text rest : List Char} {items : List Json}
    (hlength : items.length ≤ text.length) (h : Elements (value m) true text items rest) :
    Gives (elements item text) (items.mapM decode) rest := by
  have hrounds : items.length < ('[' :: text).length := Nat.lt_succ_of_le hlength
  unfold elements
  rw [bind_of_ok _ (get_eq_ok_iff.mpr ⟨rfl, rfl⟩), ← bind_pure (items.mapM decode)]
  exact (gives_elementsIn hitem h hrounds).bind fun xs => rfl

theorem agrees_list {item : Nat → Reader α} {decode : Json → Option α}
    (hitem : ∀ m, Agrees m (item m) decode) (n : Nat) : Agrees n (list n item) (list? decode) := by
  intro text rest json h
  obtain ⟨c, tail, hbare, hshape⟩ := shape_of_value h
  unfold list
  rw [peek_bind_cons _ hbare]
  by_cases hc : c = '['
  · subst hc
    obtain ⟨items, rfl⟩ := hshape.eq_array
    obtain ⟨-, m, rfl, hlength, hitems⟩ := hshape
    exact gives_elements (hitem m) hlength hitems
  · simp only [hc, if_false]
    cases json with
    | array items => exact absurd hshape.1 hc
    | _ => exact gives_refuse _ _ _

/-! ## Records written as arrays -/

/-- A reader for the fields of a record that are still to come in an array, up to its bracket. -/
def AgreesFields (first : Bool) (m : Nat) (reader : Reader α) (decode : List Json → Option α) : Prop :=
  ∀ ⦃text rest : List Char⦄ ⦃items : List Json⦄, Elements (value m) first text items rest →
    Gives ((reader >>= fun a => closeArray >>= fun _ => pure a) text) (decode items) rest

/-- No bracket follows where an element does. -/
theorem gives_closeArray_more {first : Bool} {m : Nat} {text rest : List Char} {x : Json}
    {xs : List Json} (h : Elements (value m) first text (x :: xs) rest) :
    Gives (closeArray text) none rest := by
  cases hclose : closeArray text with
  | error fault => exact ⟨fault, rfl⟩
  | ok result =>
    have hbracket := closeArray_eq_ok_iff.mp hclose
    cases h with
    | more hcomma hbare hc _ _ =>
      cases first with
      | true =>
        obtain rfl : _ = text := hcomma
        rw [hbare] at hbracket
        exact absurd (List.cons.inj hbracket).1 hc
      | false =>
        rw [show bare text = ',' :: _ from hcomma] at hbracket
        exact absurd (List.cons.inj hbracket).1 (by decide)

theorem agreesFields_pure (first : Bool) (m : Nat) (a : α) :
    AgreesFields first m (pure a) (fun | [] => some a | _ => none) := by
  intro text rest items h
  rw [pure_bind]
  cases h with
  | done hbare =>
    rw [bind_of_ok (a := ()) _ (closeArray_eq_ok_iff.mpr hbare)]
    rfl
  | more hcomma hbare hc hvalue hrest =>
    obtain ⟨fault, hfault⟩ := gives_closeArray_more (.more hcomma hbare hc hvalue hrest)
    exact ⟨fault, bind_of_error _ hfault⟩

theorem agreesFields_field? {first : Bool} {m : Nat} {reader : Reader α} {decode : Json → Option α}
    {next : Option α → Reader β} {decodeNext : Option α → List Json → Option β}
    (hreader : Agrees m reader decode)
    (hnext : ∀ a?, AgreesFields false m (next a?) (decodeNext a?)) :
    AgreesFields first m (field? first reader >>= next)
      (fun
        | [] => decodeNext none []
        | x :: xs => decode x >>= fun a => decodeNext (some a) xs) := by
  intro text rest items h
  rw [bind_assoc]
  unfold field?
  rw [bind_assoc]
  cases h with
  | done hbare =>
    -- The bracket has been looked at but not taken.
    rw [bind_of_ok _ (moreElements_eq_false_iff.mpr ⟨rest, hbare, rfl⟩)]
    exact hnext none (.done (bare_eq_cons hbare))
  | more hcomma hbare hc hvalue hrest =>
    rw [bind_of_ok _ (moreElements_eq_true_iff.mpr ⟨_, _, _, hcomma, hbare, hc, rfl⟩)]
    simp only [if_true, bind_assoc, pure_bind]
    exact (hreader hvalue).bind fun a => hnext (some a) hrest

theorem field_bind (first : Bool) (reader : Reader α) (next : α → Reader β) :
    field first reader >>= next =
      field? first reader >>= fun
        | some a => next a
        | none => fail .mismatch := by
  unfold field
  rw [bind_assoc]
  congr
  funext a?
  cases a? <;> rfl

theorem agreesFields_field {first : Bool} {m : Nat} {reader : Reader α} {decode : Json → Option α}
    {next : α → Reader β} {decodeNext : α → List Json → Option β} (hreader : Agrees m reader decode)
    (hnext : ∀ a, AgreesFields false m (next a) (decodeNext a)) :
    AgreesFields first m (field first reader >>= next)
      (fun
        | [] => none
        | x :: xs => decode x >>= fun a => decodeNext a xs) := by
  rw [field_bind]
  -- A field that has to be there is one that may be missing, with a failure to go on with.
  have hnext? : ∀ a? : Option α,
      AgreesFields false m (match a? with | some a => next a | none => fail .mismatch)
        (fun xs => a?.bind (decodeNext · xs)) := by
    intro a? text rest items h
    cases a? with
    | some a => exact hnext a h
    | none => exact gives_fail .mismatch text rest
  intro text rest items h
  have hfields := agreesFields_field? hreader hnext? h
  cases items <;> exact hfields

/-! ## Records written as objects -/

/-- A reader for the value of a member, behind its key. -/
def AgreesMember (m : Nat) (member : σ → String → Reader σ)
    (decode : σ → String × Json → Option σ) : Prop :=
  ∀ ⦃draft : σ⦄ ⦃k : String⦄ ⦃text mid rest : List Char⦄ ⦃json : Json⦄, bare text = ':' :: mid →
    value m mid = .ok (json, rest) → Gives (member draft k text) (decode draft (k, json)) rest

theorem gives_membersIn {m : Nat} {member : σ → String → Reader σ}
    {decode : σ → String × Json → Option σ} (hmember : AgreesMember m member decode) {first : Bool}
    {text rest rounds : List Char} {ms : List (String × Json)} (draft : σ)
    (h : Members (value m) first text ms rest) (hrounds : ms.length < rounds.length) :
    Gives (membersIn member rounds first draft text) (ms.foldlM decode draft) ('\x7d' :: rest) := by
  induction h generalizing rounds draft with
  | @done first text rest hbare =>
    obtain ⟨round, rounds, rfl⟩ := List.exists_cons_of_length_pos (Nat.zero_lt_of_lt hrounds)
    rw [membersIn_cons, bind_of_ok _ (moreMembers_eq_false_iff.mpr ⟨rest, hbare, rfl⟩)]
    rfl
  | more hcomma hbare hkey hcolon hvalue _ ih =>
    obtain ⟨round, rounds, rfl⟩ := List.exists_cons_of_length_pos (Nat.zero_lt_of_lt hrounds)
    rw [membersIn_cons, bind_of_ok _ (moreMembers_eq_true_iff.mpr ⟨_, _, hcomma, hbare, rfl⟩)]
    simp only [if_true]
    rw [bind_of_ok _ ((key_quote _).trans hkey), List.foldlM_cons]
    exact (hmember hcolon hvalue).bind fun next => ih next (Nat.lt_of_succ_lt_succ hrounds)

theorem gives_members {m : Nat} {member : σ → String → Reader σ}
    {decode : σ → String × Json → Option σ} (hmember : AgreesMember m member decode)
    {text rest : List Char} {ms : List (String × Json)} (start : σ)
    (hlength : ms.length ≤ text.length) (h : Members (value m) true text ms rest) :
    Gives (members member start text) (ms.foldlM decode start) rest := by
  have hrounds : ms.length < ('\x7b' :: text).length := Nat.lt_succ_of_le hlength
  unfold members
  rw [bind_of_ok _ (get_eq_ok_iff.mpr ⟨rfl, rfl⟩), ← bind_pure (ms.foldlM decode start)]
  exact (gives_membersIn hmember start h hrounds).bind fun gathered => rfl

theorem agrees_record {inOrder : Nat → Reader α} {inOrder? : List Json → Option α}
    {member : Nat → σ → String → Reader σ} {member? : σ → String × Json → Option σ} (start : σ)
    (finish : σ → Option α) (harray : ∀ m, AgreesFields true m (inOrder m) inOrder?)
    (hobject : ∀ m, AgreesMember m (member m) member?) (n : Nat) :
    Agrees n (record n inOrder member start finish) (record? inOrder? member? start finish) := by
  intro text rest json h
  obtain ⟨c, tail, hbare, hshape⟩ := shape_of_value h
  unfold record
  rw [peek_bind_cons _ hbare]
  by_cases hopen : c = '['
  · subst hopen
    obtain ⟨items, rfl⟩ := hshape.eq_array
    obtain ⟨-, m, rfl, -, hitems⟩ := hshape
    exact harray m hitems
  by_cases hopen' : c = '\x7b'
  · subst hopen'
    obtain ⟨ms, rfl⟩ := hshape.eq_object
    obtain ⟨-, m, rfl, hlength, hmembers⟩ := hshape
    simp only [Char.reduceEq, if_false, if_true]
    rw [advance_bind]
    refine (gives_members (hobject m) start hlength hmembers).bind fun gathered => ?_
    cases finish gathered with
    | some a => rfl
    | none => exact gives_fail _ _ _
  · simp only [hopen, hopen', if_false]
    cases json with
    | array => exact absurd hshape.1 hopen
    | object => exact absurd hshape.1 hopen'
    | _ => exact gives_refuse _ _ _

/-! ## Single members -/

theorem gives_once {m : Nat} {reader : Reader α} {decode : Json → Option α}
    (hreader : Agrees m reader decode) (before : Option α) (set : Option α → σ)
    {text mid rest : List Char} {json : Json} (hcolon : bare text = ':' :: mid)
    (h : value m mid = .ok (json, rest)) :
    Gives ((once before reader >>= fun a => pure (set a)) text)
      (once? before decode json >>= fun a => pure (set a)) rest := by
  cases before with
  | some _ => exact gives_fail .mismatch text rest
  | none =>
    have honce : Gives (once none reader text) ((decode json).map some) rest := by
      change Gives ((colon >>= fun _ => reader >>= fun a => pure (some a)) text) _ _
      rw [bind_of_ok (a := ()) _ (colon_eq_ok_iff.mpr hcolon)]
      exact (hreader h).map some
    exact honce.bind fun _ => rfl

theorem gives_otherMember {m : Nat} (draft : σ) {text mid rest : List Char} {json : Json}
    (hcolon : bare text = ':' :: mid) (h : value m mid = .ok (json, rest)) :
    Gives (otherMember draft text) (some draft) rest := by
  unfold otherMember
  rw [bind_of_ok (a := ()) _ (colon_eq_ok_iff.mpr hcolon), bind_of_ok _ (anything_of_value h)]
  rfl

/-! ## Whole texts -/

theorem onText_eq_ok_iff_of_agrees {n : Nat} {reader : Reader α} {decode : Json → Option α}
    (hreader : Agrees n reader decode) {text : String} {json : Json}
    (h : (value n).onText text = .ok json) {a : α} :
    reader.onText text = .ok a ↔ decode json = some a := by
  obtain ⟨rest, hvalue, hend⟩ := onText_eq_ok_iff.mp h
  rw [onText_eq_ok_iff]
  simp only [(hreader hvalue).ok_iff]
  constructor
  · rintro ⟨_, ⟨hdecode, -⟩, -⟩
    exact hdecode
  · intro hdecode
    exact ⟨rest, ⟨hdecode, rfl⟩, hend⟩

end CodeOutline.Json.Reader
