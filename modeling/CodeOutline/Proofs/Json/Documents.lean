import CodeOutline.Proofs.Json.Reading
import CodeOutline.Proofs.Text.Lines

/-! # What the reader for documents takes

`value_cases` is the inversion of the reader for whole documents, and `Shape` says the same by the shape
of the document: its first character tells what the document is.  The lemmas `value_of_scalar`,
`value_of_elements` and `value_of_members` are the way back.
-/

namespace CodeOutline.Json.Reader

variable {α : Type}

/-! ## Scalars and documents -/

theorem chars_eq_ok_iff {text rest : List Char} {s : String} :
    chars text = .ok (s, rest) ↔ ∃ cs, readChars text = .ok (cs, rest) ∧ String.ofList cs = s := by
  unfold chars lift
  simp only [bind_eq_ok_iff, pure_eq_ok_iff]
  constructor
  · rintro ⟨cs, _, hread, rfl, rfl⟩
    exact ⟨cs, hread, rfl⟩
  · rintro ⟨cs, hread, rfl⟩
    exact ⟨cs, rest, hread, rfl, rfl⟩

theorem word_eq_ok_iff {w : String} {result json : Json} {text rest : List Char} :
    word w result text = .ok (json, rest) ↔ result = json ∧ text = w.toList ++ rest := by
  unfold word
  simp only [bind_eq_ok_iff, pure_eq_ok_iff, letters_eq_ok_iff]
  constructor
  · rintro ⟨_, _, rfl, rfl, rfl⟩
    exact ⟨rfl, rfl⟩
  · rintro ⟨rfl, rfl⟩
    exact ⟨(), rest, rfl, rfl, rfl⟩

/-- A number is read as a natural number or kept as it is written. -/
theorem readNumber_shape {text rest : List Char} {json : Json}
    (h : readNumber text = .ok (json, rest)) :
    (∃ n, json = .natural n) ∨ ∃ written, json = .decimal written := by
  unfold readNumber at h
  split at h
  · split at h
    · cases h
    · cases h
      exact .inr ⟨_, rfl⟩
  · split at h
    · cases h
    · rename_i whole value behind _
      cases whole with
      | true =>
        cases h
        exact .inl ⟨value, rfl⟩
      | false =>
        cases h
        exact .inr ⟨_, rfl⟩

theorem scalar_cases {c : Char} {text rest : List Char} {json : Json}
    (h : scalar c text = .ok (json, rest)) :
    (c = 'n' ∧ json = .null ∧ text = "null".toList ++ rest) ∨
    (c = 't' ∧ json = .bool true ∧ text = "true".toList ++ rest) ∨
    (c = 'f' ∧ json = .bool false ∧ text = "false".toList ++ rest) ∨
    ((c = '-' ∨ c.isDigit = true) ∧ readNumber text = .ok (json, rest)) ∨
    (c = '"' ∧ ∃ s, json = .string s ∧ chars (text.drop 1) = .ok (s, rest)) := by
  unfold scalar at h
  split at h
  · obtain ⟨rfl, htext⟩ := word_eq_ok_iff.mp h
    exact .inl ⟨‹_›, rfl, htext⟩
  split at h
  · obtain ⟨rfl, htext⟩ := word_eq_ok_iff.mp h
    exact .inr (.inl ⟨‹_›, rfl, htext⟩)
  split at h
  · obtain ⟨rfl, htext⟩ := word_eq_ok_iff.mp h
    exact .inr (.inr (.inl ⟨‹_›, rfl, htext⟩))
  split at h
  · rename_i hc
    exact .inr (.inr (.inr (.inl ⟨by simpa using hc, h⟩)))
  split at h
  · simp only [bind_eq_ok_iff, pure_eq_ok_iff] at h
    obtain ⟨_, _, hadvance, s, _, hchars, rfl, rfl⟩ := h
    cases hadvance
    exact .inr (.inr (.inr (.inr ⟨‹_›, s, rfl, hchars⟩)))
  · cases h

/-- A document is a scalar, an array or an object, and one level less is left inside the latter. -/
theorem value_cases {n : Nat} {text rest : List Char} {json : Json}
    (h : value n text = .ok (json, rest)) :
    (∃ c tail, bare text = c :: tail ∧ c ≠ '[' ∧ c ≠ '\x7b' ∧ scalar c (c :: tail) = .ok (json, rest)) ∨
    (∃ m body items, n = m + 1 ∧ bare text = '[' :: body ∧ json = .array items ∧
      items.length ≤ body.length ∧ Elements (value m) true body items rest) ∨
    (∃ m body members, n = m + 1 ∧ bare text = '\x7b' :: body ∧ json = .object members ∧
      members.length ≤ body.length ∧ Members (value m) true body members rest) := by
  cases n with
  | zero =>
    unfold value at h
    cases hbare : bare text with
    | nil =>
      rw [peek_bind_nil _ hbare] at h
      cases h
    | cons c tail =>
      rw [peek_bind_cons _ hbare] at h
      dsimp only at h
      split at h
      · cases h
      · rename_i hc
        simp only [Bool.or_eq_true, decide_eq_true_eq, not_or] at hc
        exact .inl ⟨c, tail, rfl, hc.1, hc.2, h⟩
  | succ m =>
    unfold value at h
    cases hbare : bare text with
    | nil =>
      rw [peek_bind_nil _ hbare] at h
      cases h
    | cons c tail =>
      rw [peek_bind_cons _ hbare] at h
      dsimp only at h
      split at h
      · rename_i hc
        rw [advance_bind] at h
        simp only [bind_eq_ok_iff, pure_eq_ok_iff, elements_eq_ok_iff] at h
        obtain ⟨items, _, ⟨hlength, hitems⟩, rfl, rfl⟩ := h
        exact .inr (.inl ⟨m, tail, items, rfl, by rw [hc], rfl, hlength, hitems⟩)
      · split at h
        · rename_i hc
          rw [advance_bind] at h
          obtain ⟨all, behind, hall, hresult⟩ := bind_eq_ok_iff.mp h
          obtain ⟨rfl, rfl⟩ := pure_eq_ok_iff.mp hresult
          obtain ⟨hlength, hmembers⟩ := members_gather_eq_ok_iff.mp hall
          exact .inr (.inr ⟨m, tail, all.reverse, rfl, by rw [hc], rfl, by simpa using hlength,
            hmembers⟩)
        · exact .inl ⟨c, tail, rfl, ‹_›, ‹_›, h⟩

theorem value_of_scalar {n : Nat} {text tail rest : List Char} {c : Char} {json : Json}
    (hbare : bare text = c :: tail) (harray : c ≠ '[') (hobject : c ≠ '\x7b')
    (h : scalar c (c :: tail) = .ok (json, rest)) : value n text = .ok (json, rest) := by
  cases n <;>
  · unfold value
    rw [peek_bind_cons _ hbare]
    simpa [harray, hobject] using h

theorem value_of_elements {n : Nat} {text body rest : List Char} {items : List Json}
    (hbare : bare text = '[' :: body) (hlength : items.length ≤ body.length)
    (h : Elements (value n) true body items rest) : value (n + 1) text = .ok (.array items, rest) := by
  unfold value
  rw [peek_bind_cons _ hbare]
  simp only [if_true]
  rw [advance_bind, bind_eq_ok_iff]
  exact ⟨items, rest, elements_eq_ok_iff.mpr ⟨hlength, h⟩, rfl⟩

theorem value_of_members {n : Nat} {text body rest : List Char} {members : List (String × Json)}
    (hbare : bare text = '\x7b' :: body) (hlength : members.length ≤ body.length)
    (h : Members (value n) true body members rest) :
    value (n + 1) text = .ok (.object members, rest) := by
  unfold value
  rw [peek_bind_cons _ hbare]
  simp only [Char.reduceEq, if_false, if_true]
  rw [advance_bind, bind_eq_ok_iff]
  refine ⟨members.reverse, rest, members_gather_eq_ok_iff.mpr ⟨by simpa using hlength, ?_⟩, ?_⟩
  · rwa [List.reverse_reverse]
  · rw [List.reverse_reverse]
    rfl

theorem value_bare (n : Nat) (text : List Char) : value n (bare text) = value n text := by
  cases n <;> exact peek_bind_bare _ text

/-! ## The first character of a document -/

/-- What the reader for documents has taken behind the blanks, by the shape of the document. -/
def Shape (n : Nat) (c : Char) (tail rest : List Char) : Json → Prop
  | .null => c = 'n' ∧ c :: tail = "null".toList ++ rest
  | .bool _ => c = 't' ∨ c = 'f'
  | .natural k => (c = '-' ∨ c.isDigit = true) ∧ readNumber (c :: tail) = .ok (.natural k, rest)
  | .decimal written =>
    (c = '-' ∨ c.isDigit = true) ∧ readNumber (c :: tail) = .ok (.decimal written, rest)
  | .string s => c = '"' ∧ chars tail = .ok (s, rest)
  | .array items =>
    c = '[' ∧ ∃ m, n = m + 1 ∧ items.length ≤ tail.length ∧ Elements (value m) true tail items rest
  | .object members =>
    c = '\x7b' ∧
      ∃ m, n = m + 1 ∧ members.length ≤ tail.length ∧ Members (value m) true tail members rest

theorem shape_of_value {n : Nat} {text rest : List Char} {json : Json}
    (h : value n text = .ok (json, rest)) :
    ∃ c tail, bare text = c :: tail ∧ Shape n c tail rest json := by
  rcases value_cases h with ⟨c, tail, hbare, -, -, hscalar⟩ | ⟨m, body, items, hn, hbare, rfl, hitems⟩ |
    ⟨m, body, members, hn, hbare, rfl, hmembers⟩
  · refine ⟨c, tail, hbare, ?_⟩
    rcases scalar_cases hscalar with ⟨hc, rfl, htext⟩ | ⟨hc, rfl, -⟩ | ⟨hc, rfl, -⟩ | ⟨hc, hread⟩ |
      ⟨hc, s, rfl, hchars⟩
    · exact ⟨hc, htext⟩
    · exact .inl hc
    · exact .inr hc
    · rcases readNumber_shape hread with ⟨k, rfl⟩ | ⟨written, rfl⟩ <;> exact ⟨hc, hread⟩
    · exact ⟨hc, hchars⟩
  · exact ⟨_, body, hbare, rfl, m, hn, hitems⟩
  · exact ⟨_, body, hbare, rfl, m, hn, hmembers⟩

/-! The first character tells the shapes apart. -/

section
variable {n : Nat} {tail rest : List Char} {json : Json}

theorem Shape.eq_null (h : Shape n 'n' tail rest json) : json = .null := by
  cases json <;> simp_all [Shape]

theorem Shape.eq_string (h : Shape n '"' tail rest json) : ∃ s, json = .string s := by
  cases json <;> simp_all [Shape]

theorem Shape.eq_array (h : Shape n '[' tail rest json) : ∃ items, json = .array items := by
  cases json <;> simp_all [Shape]

theorem Shape.eq_object (h : Shape n '\x7b' tail rest json) : ∃ members, json = .object members := by
  cases json <;> simp_all [Shape]

/-- No document starts with the bracket that closes an array. -/
theorem Shape.ne_bracket {c : Char} (h : Shape n c tail rest json) : c ≠ ']' := by
  rintro rfl
  cases json <;> simp_all [Shape]

theorem Shape.eq_number {c : Char} (h : Shape n c tail rest json) (hc : c = '-' ∨ c.isDigit = true) :
    readNumber (c :: tail) = .ok (json, rest) := by
  cases json with
  | natural | decimal => exact h.2
  | bool => obtain rfl | rfl := h <;> exact absurd hc (by decide)
  | null | string | array | object =>
    obtain ⟨rfl, -⟩ := h
    exact absurd hc (by decide)

end

/-! ## Whole texts -/

theorem atEnd_eq_ok_iff {text rest : List Char} {u : Unit} :
    atEnd text = .ok (u, rest) ↔ bare text = [] ∧ [] = rest := by
  unfold atEnd
  cases h : bare text with
  | nil =>
    rw [peek_bind_nil _ h]
    simp [pure_eq_ok_iff]
  | cons c tail =>
    rw [peek_bind_cons _ h]
    simp [fail]

theorem onText_eq_ok_iff {reader : Reader α} {text : String} {a : α} :
    reader.onText text = .ok a ↔ ∃ rest, reader text.toList = .ok (a, rest) ∧ bare rest = [] := by
  have hwhole : reader.onText text = .ok a ↔ ∃ rest,
      (reader >>= fun a => atEnd >>= fun _ => pure a) text.toList = .ok (a, rest) := by
    unfold onText
    cases h : (reader >>= fun a => atEnd >>= fun _ => pure a : Reader α) text.toList with
    | error fault => simp
    | ok result => simp [Prod.ext_iff]
  simp only [hwhole, bind_eq_ok_iff, pure_eq_ok_iff, atEnd_eq_ok_iff]
  constructor
  · rintro ⟨_, a, rest, hread, _, _, ⟨hend, -⟩, rfl, -⟩
    exact ⟨rest, hread, hend⟩
  · rintro ⟨rest, hread, hend⟩
    exact ⟨[], a, rest, hread, (), [], ⟨hend, rfl⟩, rfl, rfl⟩

end CodeOutline.Json.Reader
