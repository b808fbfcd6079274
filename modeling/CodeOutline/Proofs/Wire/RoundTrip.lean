import CodeOutline.Proofs.Json.Postcondition
import CodeOutline.Proofs.Wire.Agreement
import CodeOutline.Wire.Encode

/-! # Reading answers that have been written

Whatever a direct reader takes from a text can be written and read again: the records it gives encode to
documents that fit into the nesting they were read with, and decode to themselves.  A record may have
been written as an array, with its range left out, or among members that nobody looks at; it is written
as an object with all its fields, which does not nest deeper than what was read.

`Recodes` is this property of one value.  While a record is read as an object, the fields that have been
seen keep it (`Position.Draft.Recodes` and its like), and a record of such fields has it.
-/

namespace CodeOutline.Wire

open Json Json.Reader

variable {α : Type}

/-- The value has a document that can be written with the given nesting, and is decoded from it. -/
def Recodes (n : Nat) (encode : α → Json) (decode : Json → Option α) (a : α) : Prop :=
  fits n (encode a) = true ∧ decode (encode a) = some a

/-! ## Single fields -/

theorem code_ofCode (code : Nat) : (Kind.ofCode code).code = code := by
  have hdefined : ∀ n < 26, (Kind.ofCode (n + 1)).code = n + 1 := by decide
  cases code with
  | zero => rfl
  | succ n =>
    by_cases hn : n < 26
    · exact hdefined n hn
    · have hnone : Kind.all[n]? = none := List.getElem?_eq_none (Nat.le_of_not_lt hn)
      simp [Kind.ofCode, hnone, Kind.code]

theorem yields_natural (n : Nat) : Yields (Recodes n .natural word32?) word32 := by
  intro text rest k hread
  have hk : k ≤ Word.max32 := yields_word32 hread
  have hk' : k ≤ Word.max64 := Nat.le_trans hk (by decide)
  exact ⟨by simp [fits, hk'], by simp [word32?, hk]⟩

theorem yields_kind (n : Nat) : Yields (Recodes n (.natural ·.code) kind?) readKind := by
  refine (yields_natural n).bind fun code ⟨hfits, hcode⟩ => yields_pure ?_
  dsimp only [Recodes]
  rw [code_ofCode, kind?, hcode]
  exact ⟨hfits, rfl⟩

/-! ## Positions and ranges -/

theorem recodes_position {n line character : Nat} (hline : Recodes n .natural word32? line)
    (hcharacter : Recodes n .natural word32? character) :
    Recodes (n + 1) Position.toJson position? ⟨line, character⟩ := by
  constructor
  · simp [Position.toJson, fits, hline.1, hcharacter.1]
  · simp [Position.toJson, position?, record?, once?, hline.2, hcharacter.2, Position.Draft.finish?]

structure Position.Draft.Recodes (n : Nat) (draft : Position.Draft) : Prop where
  line : ∀ line ∈ draft.line, Wire.Recodes n .natural word32? line
  character : ∀ character ∈ draft.character, Wire.Recodes n .natural word32? character

theorem yields_position (n : Nat) : Yields (Recodes n Position.toJson position?) (readPosition n) := by
  refine yields_record (P := fun n => Recodes n Position.toJson position?) (D := Position.Draft.Recodes)
    (fun m => ?_) (fun m => ⟨by simp, by simp⟩) (fun m draft k hdraft => ?_)
    (fun m draft position hdraft h => ?_) n
  · refine (yields_field true (yields_natural m)).bind fun line hline => ?_
    refine (yields_field false (yields_natural m)).bind fun character hcharacter => ?_
    exact yields_pure (recodes_position hline hcharacter)
  · split
    · exact (yields_once _ (yields_natural m)).bind fun line h => yields_pure { hdraft with line := h }
    · exact (yields_once _ (yields_natural m)).bind fun character h =>
        yields_pure { hdraft with character := h }
    · exact yields_otherMember hdraft
  · obtain ⟨line?, character?⟩ := draft
    simp [Position.Draft.finish?, Option.bind_eq_some_iff] at h
    obtain ⟨line, rfl, character, rfl, rfl⟩ := h
    exact recodes_position (hdraft.line _ rfl) (hdraft.character _ rfl)

theorem recodes_range {n : Nat} {first last : Position}
    (hfirst : Recodes n Position.toJson position? first)
    (hlast : Recodes n Position.toJson position? last) :
    Recodes (n + 1) Range.toJson range? ⟨first, last⟩ := by
  constructor
  · simp [Range.toJson, fits, hfirst.1, hlast.1]
  · simp [Range.toJson, range?, record?, once?, hfirst.2, hlast.2, Range.Draft.finish?]

structure Range.Draft.Recodes (n : Nat) (draft : Range.Draft) : Prop where
  first : ∀ first ∈ draft.first, Wire.Recodes n Position.toJson position? first
  last : ∀ last ∈ draft.last, Wire.Recodes n Position.toJson position? last

theorem yields_range (n : Nat) : Yields (Recodes n Range.toJson range?) (readRange n) := by
  refine yields_record (P := fun n => Recodes n Range.toJson range?) (D := Range.Draft.Recodes)
    (fun m => ?_) (fun m => ⟨by simp, by simp⟩) (fun m draft k hdraft => ?_)
    (fun m draft range hdraft h => ?_) n
  · refine (yields_field true (yields_position m)).bind fun first hfirst => ?_
    refine (yields_field false (yields_position m)).bind fun last hlast => ?_
    exact yields_pure (recodes_range hfirst hlast)
  · split
    · exact (yields_once _ (yields_position m)).bind fun first h =>
        yields_pure { hdraft with first := h }
    · exact (yields_once _ (yields_position m)).bind fun last h =>
        yields_pure { hdraft with last := h }
    · exact yields_otherMember hdraft
  · obtain ⟨first?, last?⟩ := draft
    simp [Range.Draft.finish?, Option.bind_eq_some_iff] at h
    obtain ⟨first, rfl, last, rfl, rfl⟩ := h
    exact recodes_range (hdraft.first _ rfl) (hdraft.last _ rfl)

/-! ## Lists -/

theorem recodes_list {n : Nat} {encode : α → Json} {decode : Json → Option α} {xs : List α}
    (h : ∀ x ∈ xs, Recodes n encode decode x) :
    Recodes (n + 1) (fun xs => .array (xs.map encode)) (list? decode) xs := by
  constructor
  · simpa [fits] using fun x hx => (h x hx).1
  · change (xs.map encode).mapM decode = some xs
    induction xs with
    | nil => rfl
    | cons x xs ih =>
      rw [List.forall_mem_cons] at h
      simp [h.1.2, ih h.2]

theorem yields_list_recodes {item : Nat → Reader α} {encode : α → Json} {decode : Json → Option α}
    (hitem : ∀ m, Yields (Recodes m encode decode) (item m)) (n : Nat) :
    Yields (Recodes n (fun xs => .array (xs.map encode)) (list? decode)) (list n item) :=
  yields_list (Q := fun n => Recodes n (fun xs => .array (xs.map encode)) (list? decode)) hitem
    (fun _ _ => recodes_list) n

theorem encodeDocumentSymbols_eq (symbols : List DocumentSymbol) :
    encodeDocumentSymbols symbols = .array (symbols.map DocumentSymbol.toJson) := by
  suffices h : documentSymbolsToJson symbols = symbols.map DocumentSymbol.toJson by
    rw [encodeDocumentSymbols, h]
  induction symbols with
  | nil => rfl
  | cons symbol symbols ih => rw [documentSymbolsToJson, ih, List.map_cons]

/-! ## Document symbols -/

theorem recodes_documentSymbol {levels n : Nat} {name : String} {detail : Option String} {kind : Kind}
    {range selectionRange : Range} {children : Option (List DocumentSymbol)}
    (hkind : Recodes n (.natural ·.code) kind? kind) (hrange : Recodes n Range.toJson range? range)
    (hselection : Recodes n Range.toJson range? selectionRange)
    (hchildren : ∀ symbols ∈ children,
      Recodes n encodeDocumentSymbols (list? (documentSymbol? levels)) symbols) :
    Recodes (n + 1) DocumentSymbol.toJson (documentSymbol? (levels + 1))
      ⟨name, detail, kind, range, selectionRange, children⟩ := by
  constructor
  · cases detail <;> cases children <;>
      simp_all [DocumentSymbol.toJson, optionalMember, childrenMember, fits, Recodes,
        encodeDocumentSymbols]
  · cases detail <;> cases children <;>
      simp_all [DocumentSymbol.toJson, optionalMember, childrenMember, Recodes,
        encodeDocumentSymbols, documentSymbol?, record?, once?, nullable?, string?,
        DocumentSymbol.Draft.finish?]

structure DocumentSymbol.Draft.Recodes (levels n : Nat) (draft : DocumentSymbol.Draft) : Prop where
  kind : ∀ kind ∈ draft.kind, Wire.Recodes n (.natural ·.code) kind? kind
  range : ∀ range ∈ draft.range, Wire.Recodes n Range.toJson range? range
  selectionRange : ∀ range ∈ draft.selectionRange, Wire.Recodes n Range.toJson range? range
  children : ∀ children ∈ draft.children, ∀ symbols ∈ children,
    Wire.Recodes n encodeDocumentSymbols (list? (documentSymbol? levels)) symbols

theorem yields_documentSymbol (levels n : Nat) :
    Yields (Recodes n DocumentSymbol.toJson (documentSymbol? levels)) (readDocumentSymbol levels n) := by
  -- The induction is on the levels, as children have one less; the nesting goes along.
  induction levels generalizing n with
  | zero => exact yields_fail _ _
  | succ levels ih =>
    have hchildren : ∀ m, Yields (fun children => ∀ symbols ∈ children,
        Recodes m encodeDocumentSymbols (list? (documentSymbol? levels)) symbols)
        (nullable (list m (readDocumentSymbol levels))) := by
      intro m
      rw [show encodeDocumentSymbols = _ from funext encodeDocumentSymbols_eq]
      exact yields_nullable (yields_list_recodes ih m)
    refine yields_record
      (P := fun n => Recodes n DocumentSymbol.toJson (documentSymbol? (levels + 1)))
      (D := DocumentSymbol.Draft.Recodes levels)
      (fun m => ?_) (fun m => ⟨by simp, by simp, by simp, by simp⟩) (fun m draft k hdraft => ?_)
      (fun m draft symbol hdraft h => ?_) n
    · refine (yields_true _).bind fun name _ => (yields_true _).bind fun detail _ => ?_
      refine (yields_field false (yields_kind m)).bind fun kind hkind => ?_
      refine (yields_field false (yields_range m)).bind fun range hrange => ?_
      refine (yields_field false (yields_range m)).bind fun selectionRange hselection => ?_
      refine (yields_field false (hchildren m)).bind fun children hchildren => ?_
      exact yields_pure (recodes_documentSymbol hkind hrange hselection hchildren)
    · split
      · exact (yields_true _).bind fun name _ => yields_pure { hdraft with }
      · exact (yields_true _).bind fun detail _ => yields_pure { hdraft with }
      · exact (yields_once _ (yields_kind m)).bind fun kind h => yields_pure { hdraft with kind := h }
      · exact (yields_once _ (yields_range m)).bind fun range h =>
          yields_pure { hdraft with range := h }
      · exact (yields_once _ (yields_range m)).bind fun range h =>
          yields_pure { hdraft with selectionRange := h }
      · exact (yields_once _ (hchildren m)).bind fun children h =>
          yields_pure { hdraft with children := h }
      · exact yields_otherMember hdraft
    · obtain ⟨name?, detail?, kind?, range?, selectionRange?, children?⟩ := draft
      simp [DocumentSymbol.Draft.finish?, Option.bind_eq_some_iff] at h
      obtain ⟨name, rfl, kind, rfl, range, rfl, selectionRange, rfl, rfl⟩ := h
      refine recodes_documentSymbol (hdraft.kind _ rfl) (hdraft.range _ rfl)
        (hdraft.selectionRange _ rfl) fun symbols hsymbols => ?_
      cases children? with
      | none => cases hsymbols
      | some children => exact hdraft.children _ rfl symbols hsymbols

/-! ## Symbol informations

A location that leaves out its range nests less deeply than the one that is written for it.  So here the
nesting matters: it has to leave room for a range. -/

theorem recodes_origin {n : Nat} (h : 2 ≤ n) : Recodes n Range.toJson range? Range.origin := by
  obtain ⟨m, rfl⟩ := Nat.exists_eq_add_of_le' h
  have hzero : Recodes m .natural word32? 0 := by
    cases m <;> exact ⟨rfl, rfl⟩
  exact recodes_range (recodes_position hzero hzero) (recodes_position hzero hzero)

theorem recodes_location {n : Nat} {uri : String} {range : Range}
    (hrange : Recodes n Range.toJson range? range) :
    Recodes (n + 1) Location.toJson location? ⟨uri, range⟩ := by
  constructor
  · simp [Location.toJson, fits, hrange.1]
  · simp [Location.toJson, location?, record?, once?, string?, hrange.2, Location.Draft.finish?]

theorem recodes_location_getD {n : Nat} {uri : String} {range? : Option Range} (hn : 3 ≤ n + 1)
    (hrange : ∀ range ∈ range?, Recodes n Range.toJson Wire.range? range) :
    Recodes (n + 1) Location.toJson location? ⟨uri, range?.getD Range.origin⟩ := by
  cases range? with
  | none => exact recodes_location (recodes_origin (by omega))
  | some range => exact recodes_location (hrange range rfl)

theorem yields_location (n : Nat) :
    Yields (fun location => 3 ≤ n → Recodes n Location.toJson location? location) (readLocation n) := by
  refine yields_record
    (P := fun n location => 3 ≤ n → Recodes n Location.toJson location? location)
    (D := fun m draft => ∀ range ∈ draft.range, Recodes m Range.toJson range? range)
    (fun m => ?_) (fun m => by simp) (fun m draft k hdraft => ?_)
    (fun m draft location hdraft h hn => ?_) n
  · refine (yields_true _).bind fun uri _ => ?_
    refine (yields_field? false (yields_range m)).bind fun range? hrange => ?_
    exact yields_pure fun hn => recodes_location_getD hn hrange
  · split
    · exact (yields_true _).bind fun uri _ => yields_pure hdraft
    · exact (yields_once _ (yields_range m)).bind fun range h => yields_pure h
    · exact yields_otherMember hdraft
  · obtain ⟨uri?, range?⟩ := draft
    simp [Location.Draft.finish?, Option.bind_eq_some_iff] at h
    obtain ⟨uri, rfl, rfl⟩ := h
    exact recodes_location_getD hn hdraft

theorem recodes_symbolInformation {n : Nat} {name : String} {kind : Kind} {location : Location}
    {containerName : Option String} (hkind : Recodes n (.natural ·.code) kind? kind)
    (hlocation : Recodes n Location.toJson location? location) :
    Recodes (n + 1) SymbolInformation.toJson symbolInformation?
      ⟨name, kind, location, containerName⟩ := by
  constructor
  · cases containerName <;>
      simp_all [SymbolInformation.toJson, optionalMember, fits, Recodes]
  · cases containerName <;>
      simp_all [SymbolInformation.toJson, optionalMember, Recodes, symbolInformation?, record?, once?,
        nullable?, string?, SymbolInformation.Draft.finish?]

structure SymbolInformation.Draft.Recodes (n : Nat) (draft : SymbolInformation.Draft) : Prop where
  kind : ∀ kind ∈ draft.kind, Wire.Recodes n (.natural ·.code) kind? kind
  location : ∀ location ∈ draft.location, 3 ≤ n → Wire.Recodes n Location.toJson location? location

theorem yields_symbolInformation (n : Nat) :
    Yields (fun info => 4 ≤ n → Recodes n SymbolInformation.toJson symbolInformation? info)
      (readSymbolInformation n) := by
  refine yields_record
    (P := fun n info => 4 ≤ n → Recodes n SymbolInformation.toJson symbolInformation? info)
    (D := SymbolInformation.Draft.Recodes) (fun m => ?_) (fun m => ⟨by simp, by simp⟩)
    (fun m draft k hdraft => ?_) (fun m draft info hdraft h hn => ?_) n
  · refine (yields_true _).bind fun name _ => ?_
    refine (yields_field false (yields_kind m)).bind fun kind hkind => ?_
    refine (yields_field false (yields_location m)).bind fun location hlocation => ?_
    refine (yields_true _).bind fun containerName _ => yields_pure fun hn => ?_
    exact recodes_symbolInformation hkind (hlocation (Nat.le_of_succ_le_succ hn))
  · split
    · exact (yields_true _).bind fun name _ => yields_pure { hdraft with }
    · exact (yields_once _ (yields_kind m)).bind fun kind h => yields_pure { hdraft with kind := h }
    · exact (yields_once _ (yields_location m)).bind fun location h =>
        yields_pure { hdraft with location := h }
    · exact (yields_true _).bind fun containerName _ => yields_pure { hdraft with }
    · exact yields_otherMember hdraft
  · obtain ⟨name?, kind?, location?, containerName?⟩ := draft
    simp [SymbolInformation.Draft.finish?, Option.bind_eq_some_iff] at h
    obtain ⟨name, rfl, kind, rfl, location, rfl, rfl⟩ := h
    exact recodes_symbolInformation (hdraft.kind _ rfl)
      (hdraft.location _ rfl (Nat.le_of_succ_le_succ hn))

/-! ## Whole texts -/

theorem recodes_of_readDocumentSymbols {text : String} {symbols : List DocumentSymbol}
    (h : readDocumentSymbols text = .ok symbols) :
    Recodes nestingLimit encodeDocumentSymbols documentSymbols? symbols := by
  rw [show encodeDocumentSymbols = _ from funext encodeDocumentSymbols_eq]
  exact yields_onText (yields_list_recodes (yields_documentSymbol _) _) h

theorem recodes_of_readSymbolInformations {text : String} {infos : List SymbolInformation}
    (h : readSymbolInformations text = .ok infos) :
    Recodes nestingLimit encodeSymbolInformations symbolInformations? infos :=
  yields_onText
    (yields_list
      (Q := fun n infos => 5 ≤ n → Recodes n encodeSymbolInformations symbolInformations? infos)
      yields_symbolInformation
      (fun _ _ hinfos hn => recodes_list fun info hinfo =>
        hinfos info hinfo (Nat.le_of_succ_le_succ hn)) nestingLimit)
    h (by decide)

/-- Reads a forest and writes it again. -/
def rewriteForest (text : String) : Except Fault String :=
  (readDocumentSymbols text).map fun symbols => compact (encodeDocumentSymbols symbols)

/-- Reads a flat list and writes it again. -/
def rewriteFlat (text : String) : Except Fault String :=
  (readSymbolInformations text).map fun infos => compact (encodeSymbolInformations infos)

theorem readDocumentSymbols_encode {text : String} {symbols : List DocumentSymbol}
    (h : readDocumentSymbols text = .ok symbols) :
    readDocumentSymbols (compact (encodeDocumentSymbols symbols)) = .ok symbols := by
  obtain ⟨hfits, hdecode⟩ := recodes_of_readDocumentSymbols h
  exact (readDocumentSymbols_eq_ok_iff (onText_compact hfits)).mpr hdecode

theorem readSymbolInformations_encode {text : String} {infos : List SymbolInformation}
    (h : readSymbolInformations text = .ok infos) :
    readSymbolInformations (compact (encodeSymbolInformations infos)) = .ok infos := by
  obtain ⟨hfits, hdecode⟩ := recodes_of_readSymbolInformations h
  exact (readSymbolInformations_eq_ok_iff (onText_compact hfits)).mpr hdecode

/-- Whatever can be read directly from a text is read again from the text that is written for it, so
    that a text which has been rewritten once stays as it is. -/
theorem direct_reading_undoes_encoding (text : String) :
    (∀ symbols, readDocumentSymbols text = .ok symbols →
      readDocumentSymbols (compact (encodeDocumentSymbols symbols)) = .ok symbols) ∧
    (∀ infos, readSymbolInformations text = .ok infos →
      readSymbolInformations (compact (encodeSymbolInformations infos)) = .ok infos) ∧
    (∀ written, rewriteForest text = .ok written → rewriteForest written = .ok written) ∧
    (∀ written, rewriteFlat text = .ok written → rewriteFlat written = .ok written) := by
  refine ⟨fun _ => readDocumentSymbols_encode, fun _ => readSymbolInformations_encode, ?_, ?_⟩
  · intro written h
    obtain ⟨symbols, hsymbols, rfl⟩ := map_eq_ok_iff.mp h
    exact map_eq_ok_iff.mpr ⟨symbols, readDocumentSymbols_encode hsymbols, rfl⟩
  · intro written h
    obtain ⟨infos, hinfos, rfl⟩ := map_eq_ok_iff.mp h
    exact map_eq_ok_iff.mpr ⟨infos, readSymbolInformations_encode hinfos, rfl⟩

/-- A forest with one symbol, written as an array, of a kind that the protocol does not define. -/
def arrayForest : Json :=
  .array [.array [.string "a\"b", .null, .natural 4294967295,
    .array [.array [.natural 0, .natural 0], .array [.natural 3, .natural 0]],
    .array [.array [.natural 1, .natural 4], .array [.natural 1, .natural 5]], .array []]]

/-- The symbol of `arrayForest`; it has no children, but could have. -/
def arraySymbol : DocumentSymbol :=
  ⟨"a\"b", none, .other 4294967295, ⟨⟨0, 0⟩, ⟨3, 0⟩⟩, ⟨⟨1, 4⟩, ⟨1, 5⟩⟩, some []⟩

theorem direct_reading_undoes_encoding_array :
    readDocumentSymbols (compact arrayForest) = .ok [arraySymbol] ∧
      readDocumentSymbols (compact (encodeDocumentSymbols [arraySymbol])) = .ok [arraySymbol] := by
  have h : (value nestingLimit).onText (compact arrayForest) = .ok arrayForest := onText_compact rfl
  have hread : readDocumentSymbols (compact arrayForest) = .ok [arraySymbol] :=
    (readDocumentSymbols_eq_ok_iff h).mpr rfl
  exact ⟨hread, (direct_reading_undoes_encoding _).1 _ hread⟩

end CodeOutline.Wire
