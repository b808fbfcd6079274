import CodeOutline.Proofs.Json.Agreement
import CodeOutline.Proofs.Json.Writing
import CodeOutline.Wire.Decode
import CodeOutline.Wire.Direct

/-! # Saved answers and direct readings

A saved answer is decoded from the document it holds; a caller who knows the form of an answer reads it
directly.  On every text that is a document, the two agree record by record, and so do their results.
-/

namespace CodeOutline.Wire

open Json Json.Reader

theorem agrees_kind (n : Nat) : Agrees n readKind kind? :=
  (agrees_word32 n).map Kind.ofCode

theorem agrees_position (n : Nat) : Agrees n (readPosition n) position? := by
  refine agrees_record _ _ (fun m => ?_) (fun m => ?_) n
  · intro text rest items h
    have hfields := agreesFields_field (agrees_word32 m) (fun line =>
      agreesFields_field (agrees_word32 m) fun character =>
        agreesFields_pure false m (⟨line, character⟩ : Position)) h
    match items with
    | [] | [_] | [_, _] | _ :: _ :: _ :: _ => simpa using hfields
  · intro draft k text mid rest json hcolon h
    dsimp only
    split
    · exact gives_once (agrees_word32 m) draft.line _ hcolon h
    · exact gives_once (agrees_word32 m) draft.character _ hcolon h
    · simpa only [*] using gives_otherMember (m := m) draft hcolon h

theorem agrees_range (n : Nat) : Agrees n (readRange n) range? := by
  refine agrees_record _ _ (fun m => ?_) (fun m => ?_) n
  · intro text rest items h
    have hfields := agreesFields_field (agrees_position m) (fun first =>
      agreesFields_field (agrees_position m) fun last =>
        agreesFields_pure false m (⟨first, last⟩ : Range)) h
    match items with
    | [] | [_] | [_, _] | _ :: _ :: _ :: _ => simpa using hfields
  · intro draft k text mid rest json hcolon h
    dsimp only
    split
    · exact gives_once (agrees_position m) draft.first _ hcolon h
    · exact gives_once (agrees_position m) draft.last _ hcolon h
    · simpa only [*] using gives_otherMember (m := m) draft hcolon h

theorem agrees_documentSymbol (levels n : Nat) :
    Agrees n (readDocumentSymbol levels n) (documentSymbol? levels) := by
  induction levels generalizing n with
  | zero => exact fun text rest json _ => gives_fail .malformed text rest
  | succ levels ih =>
    -- Children are read with the nesting that is left, so `ih` is used at any nesting.
    have hstring := fun m => agrees_nullable (agrees_string m)
    have hchildren := fun m => agrees_nullable (agrees_list ih m)
    refine agrees_record _ _ (fun m => ?_) (fun m => ?_) n
    · intro text rest items h
      have hfields := agreesFields_field (agrees_string m) (fun name =>
        agreesFields_field (hstring m) fun detail =>
        agreesFields_field (agrees_kind m) fun kind =>
        agreesFields_field (agrees_range m) fun range =>
        agreesFields_field (agrees_range m) fun selectionRange =>
        agreesFields_field (hchildren m) fun children =>
        agreesFields_pure false m
          (⟨name, detail, kind, range, selectionRange, children⟩ : DocumentSymbol)) h
      match items with
      | [] | [_] | [_, _] | [_, _, _] | [_, _, _, _] | [_, _, _, _, _] | [_, _, _, _, _, _]
      | _ :: _ :: _ :: _ :: _ :: _ :: _ :: _ => simpa using hfields
    · intro draft k text mid rest json hcolon h
      dsimp only
      split
      · exact gives_once (agrees_string m) draft.name _ hcolon h
      · exact gives_once (hstring m) draft.detail _ hcolon h
      · exact gives_once (agrees_kind m) draft.kind _ hcolon h
      · exact gives_once (agrees_range m) draft.range _ hcolon h
      · exact gives_once (agrees_range m) draft.selectionRange _ hcolon h
      · exact gives_once (hchildren m) draft.children _ hcolon h
      · simpa only [*] using gives_otherMember (m := m) draft hcolon h

theorem agrees_location (n : Nat) : Agrees n (readLocation n) location? := by
  refine agrees_record _ _ (fun m => ?_) (fun m => ?_) n
  · intro text rest items h
    have hfields := agreesFields_field (agrees_string m) (fun uri =>
      agreesFields_field? (agrees_range m) fun range =>
        agreesFields_pure false m (⟨uri, range.getD Range.origin⟩ : Location)) h
    match items with
    | [] | [_] | [_, _] | _ :: _ :: _ :: _ => simpa using hfields
  · intro draft k text mid rest json hcolon h
    dsimp only
    split
    · exact gives_once (agrees_string m) draft.uri _ hcolon h
    · exact gives_once (agrees_range m) draft.range _ hcolon h
    · simpa only [*] using gives_otherMember (m := m) draft hcolon h

theorem agrees_symbolInformation (n : Nat) :
    Agrees n (readSymbolInformation n) symbolInformation? := by
  have hstring := fun m => agrees_nullable (agrees_string m)
  refine agrees_record _ _ (fun m => ?_) (fun m => ?_) n
  · intro text rest items h
    have hfields := agreesFields_field (agrees_string m) (fun name =>
      agreesFields_field (agrees_kind m) fun kind =>
      agreesFields_field (agrees_location m) fun location =>
      agreesFields_field (hstring m) fun containerName =>
      agreesFields_pure false m (⟨name, kind, location, containerName⟩ : SymbolInformation)) h
    match items with
    | [] | [_] | [_, _] | [_, _, _] | [_, _, _, _] | _ :: _ :: _ :: _ :: _ :: _ => simpa using hfields
  · intro draft k text mid rest json hcolon h
    dsimp only
    split
    · exact gives_once (agrees_string m) draft.name _ hcolon h
    · exact gives_once (agrees_kind m) draft.kind _ hcolon h
    · exact gives_once (agrees_location m) draft.location _ hcolon h
    · exact gives_once (hstring m) draft.containerName _ hcolon h
    · simpa only [*] using gives_otherMember (m := m) draft hcolon h

/-! ## Whole answers -/

/-- An answer that does not start like `null` is read as a document. -/
theorem answer_of_ne {text tail : List Char} {c : Char} (hbare : bare text = c :: tail) (hc : c ≠ 'n') :
    answer text =
      (value nestingLimit >>= fun json =>
        match symbols? json with
        | some symbols => pure symbols
        | none => fail .mismatch) (c :: tail) := by
  unfold answer
  rw [peek_bind_cons _ hbare]
  refine congrFun ?_ _
  split
  · rename_i hnull
    exact absurd (Option.some.inj hnull) hc
  · rfl

theorem decodeSymbols_of_document {text : String} {json : Json}
    (h : (value nestingLimit).onText text = .ok json) (hjson : json ≠ .null) :
    decodeSymbols text =
      match symbols? json with
      | some symbols => .ok symbols
      | none => .error .mismatch := by
  obtain ⟨rest, hvalue, hend⟩ := onText_eq_ok_iff.mp h
  obtain ⟨c, tail, hbare, hshape⟩ := shape_of_value hvalue
  have hc : c ≠ 'n' := by
    rintro rfl
    exact hjson hshape.eq_null
  rw [← value_bare, hbare] at hvalue
  cases hsymbols : symbols? json with
  | some symbols =>
    have hanswer : answer text.toList = .ok (symbols, rest) := by
      rw [answer_of_ne hbare hc, bind_of_ok _ hvalue, hsymbols]
      rfl
    exact onText_eq_ok_iff.mpr ⟨rest, hanswer, hend⟩
  | none =>
    have hanswer : answer text.toList = .error .mismatch := by
      rw [answer_of_ne hbare hc, bind_of_ok _ hvalue, hsymbols]
      rfl
    unfold decodeSymbols onText
    rw [bind_of_error _ hanswer]

theorem readDocumentSymbols_eq_ok_iff {text : String} {json : Json}
    (h : (value nestingLimit).onText text = .ok json) {symbols : List DocumentSymbol} :
    readDocumentSymbols text = .ok symbols ↔ documentSymbols? json = some symbols :=
  onText_eq_ok_iff_of_agrees (agrees_list (agrees_documentSymbol _) _) h

theorem readSymbolInformations_eq_ok_iff {text : String} {json : Json}
    (h : (value nestingLimit).onText text = .ok json) {infos : List SymbolInformation} :
    readSymbolInformations text = .ok infos ↔ symbolInformations? json = some infos :=
  onText_eq_ok_iff_of_agrees (agrees_list agrees_symbolInformation _) h

/-- A list with an element that cannot be decoded is not decoded at all. -/
theorem list?_eq_none_of_mem {α : Type} {decode : Json → Option α} {items : List Json} {item : Json}
    (hitem : item ∈ items) (h : decode item = none) : list? decode (.array items) = none := by
  change items.mapM decode = none
  induction items with
  | nil => cases hitem
  | cons first others ih =>
    rw [List.mapM_cons]
    cases hitem with
    | head => simp [h]
    | tail _ hmem => simp [ih hmem]

/-- On a text that is a document, a saved answer gives what reading it directly as a forest gives, and
    otherwise what reading it directly as a flat list gives.  Unless it is `null`, it gives nothing
    else; in particular nothing is taken from a list that mixes the two forms. -/
theorem saved_answer_agrees_with_direct_reading {text : String} {json : Json}
    (h : (value nestingLimit).onText text = .ok json) :
    (∀ symbols, readDocumentSymbols text = .ok symbols →
      decodeSymbols text = .ok (symbolsOf symbols)) ∧
    (∀ infos, (∀ symbols, readDocumentSymbols text ≠ .ok symbols) →
      readSymbolInformations text = .ok infos →
      decodeSymbols text = .ok (infos.map SymbolInformation.toSymbol)) ∧
    (∀ result, decodeSymbols text = .ok result → json ≠ .null →
      (∃ symbols, readDocumentSymbols text = .ok symbols) ∨
        ∃ infos, readSymbolInformations text = .ok infos) ∧
    (∀ items, json = .array items →
      (∃ item ∈ items, documentSymbol? (nestingLimit + 1) item = none) →
      (∃ item ∈ items, symbolInformation? item = none) → decodeSymbols text = .error .mismatch) := by
  simp only [readDocumentSymbols_eq_ok_iff h, readSymbolInformations_eq_ok_iff h, ne_eq]
  refine ⟨?_, ?_, ?_, ?_⟩
  · intro symbols hsymbols
    have hjson : json ≠ .null := by
      rintro rfl
      cases hsymbols
    rw [decodeSymbols_of_document h hjson]
    simp [symbols?, hsymbols]
  · intro infos hforest hinfos
    have hjson : json ≠ .null := by
      rintro rfl
      cases hinfos
    rw [decodeSymbols_of_document h hjson]
    simp [symbols?, Option.eq_none_iff_forall_ne_some.mpr hforest, hinfos]
  · intro result hresult hjson
    rw [decodeSymbols_of_document h hjson] at hresult
    cases hforest : documentSymbols? json with
    | some symbols => exact .inl ⟨symbols, rfl⟩
    | none =>
      cases hinfos : symbolInformations? json with
      | some infos => exact .inr ⟨infos, rfl⟩
      | none => simp [symbols?, hforest, hinfos] at hresult
  · rintro items rfl ⟨one, hone, hforest⟩ ⟨other, hother, hinfos⟩
    rw [decodeSymbols_of_document h nofun]
    simp [symbols?, documentSymbols?, symbolInformations?, list?_eq_none_of_mem hone hforest,
      list?_eq_none_of_mem hother hinfos]

/-- A tree with one child, which is the array of its fields. -/
def nestedItem : Json :=
  let range := .array [.array [.natural 0, .natural 0], .array [.natural 3, .natural 0]]
  .object [("name", .string "C"), ("kind", .natural 5), ("range", range),
    ("selectionRange", .array [.array [.natural 1, .natural 4], .array [.natural 1, .natural 5]]),
    ("children", .array [.array [.string "m", .null, .natural 6, range, range, .null]])]

/-- An element of a flat list that leaves out the range of its location. -/
def flatItem : Json :=
  .array [.string "g", .natural 12, .array [.string "file"], .null]

theorem saved_answer_agrees_with_direct_reading_mixed :
    decodeSymbols (compact (.array [nestedItem])) = .ok [⟨"C", .classDecl, 1, [⟨"m", .method, 0, []⟩]⟩] ∧
      decodeSymbols (compact (.array [flatItem])) = .ok [⟨"g", .function, 0, []⟩] ∧
      decodeSymbols (compact (.array [nestedItem, flatItem])) = .error .mismatch := by
  refine ⟨?_, ?_, ?_⟩
  · have h : (value nestingLimit).onText _ = .ok (.array [nestedItem]) := onText_compact rfl
    exact (saved_answer_agrees_with_direct_reading h).1 _ ((readDocumentSymbols_eq_ok_iff h).mpr rfl)
  · have h : (value nestingLimit).onText _ = .ok (.array [flatItem]) := onText_compact rfl
    refine (saved_answer_agrees_with_direct_reading h).2.1 _ ?_
      ((readSymbolInformations_eq_ok_iff h).mpr rfl)
    intro symbols hsymbols
    cases (readDocumentSymbols_eq_ok_iff h).mp hsymbols
  · have h : (value nestingLimit).onText _ = .ok (.array [nestedItem, flatItem]) := onText_compact rfl
    exact (saved_answer_agrees_with_direct_reading h).2.2.2 _ rfl
      ⟨flatItem, .tail _ (.head _), rfl⟩ ⟨nestedItem, .head _, rfl⟩

end CodeOutline.Wire
