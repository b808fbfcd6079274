import CodeOutline.Json.Decode
import CodeOutline.Json.Reader
import CodeOutline.Wire.Basic

/-! # Decoding document symbols

A saved answer of a language server is read as a JSON document first, and only then taken for
a forest of document symbols, or else for a flat list of symbol informations.  So a text that
is not JSON is refused as such whatever its shape.  What stands behind the document is looked
at last.
-/

namespace CodeOutline.Wire

open Json (word32? string? nullable? list? once? record?)

/-! ## The records -/

def kind? (json : Json) : Option Kind :=
  (word32? json).map Kind.ofCode

def position? : Json → Option Position :=
  record?
    (fun
      | [line, character] => do return ⟨← word32? line, ← word32? character⟩
      | _ => none)
    (fun draft (key, json) =>
      match key with
      | "line" => do return { draft with line := ← once? draft.line word32? json }
      | "character" => do return { draft with character := ← once? draft.character word32? json }
      | _ => some draft)
    {} Position.Draft.finish?

def range? : Json → Option Range :=
  record?
    (fun
      | [first, last] => do return ⟨← position? first, ← position? last⟩
      | _ => none)
    (fun draft (key, json) =>
      match key with
      | "start" => do return { draft with first := ← once? draft.first position? json }
      | "end" => do return { draft with last := ← once? draft.last position? json }
      | _ => some draft)
    {} Range.Draft.finish?

def documentSymbol? : Nat → Json → Option DocumentSymbol
  | 0, _ => none
  | levels + 1, json =>
    let children? := nullable? (list? (documentSymbol? levels))
    record?
      (fun
        | [name, detail, kind, range, selectionRange, children] => do
          return ⟨← string? name, ← nullable? string? detail, ← kind? kind, ← range? range,
            ← range? selectionRange, ← children? children⟩
        | _ => none)
      (fun draft (key, json) =>
        match key with
        | "name" => do return { draft with name := ← once? draft.name string? json }
        | "detail" => do return { draft with detail := ← once? draft.detail (nullable? string?) json }
        | "kind" => do return { draft with kind := ← once? draft.kind kind? json }
        | "range" => do return { draft with range := ← once? draft.range range? json }
        | "selectionRange" => do
          return { draft with selectionRange := ← once? draft.selectionRange range? json }
        | "children" => do return { draft with children := ← once? draft.children children? json }
        | _ => some draft)
      {} DocumentSymbol.Draft.finish? json

def location? : Json → Option Location :=
  record?
    (fun
      | [uri, range] => do return ⟨← string? uri, ← range? range⟩
      | [uri] => do return ⟨← string? uri, Range.origin⟩
      | _ => none)
    (fun draft (key, json) =>
      match key with
      | "uri" => do return { draft with uri := ← once? draft.uri string? json }
      | "range" => do return { draft with range := ← once? draft.range range? json }
      | _ => some draft)
    {} Location.Draft.finish?

def symbolInformation? : Json → Option SymbolInformation :=
  record?
    (fun
      | [name, kind, location, containerName] => do
        return ⟨← string? name, ← kind? kind, ← location? location,
          ← nullable? string? containerName⟩
      | _ => none)
    (fun draft (key, json) =>
      match key with
      | "name" => do return { draft with name := ← once? draft.name string? json }
      | "kind" => do return { draft with kind := ← once? draft.kind kind? json }
      | "location" => do return { draft with location := ← once? draft.location location? json }
      | "containerName" => do
        return { draft with containerName := ← once? draft.containerName (nullable? string?) json }
      | _ => some draft)
    {} SymbolInformation.Draft.finish?

/-! ## The answer -/

/-- A forest of document symbols.  A document that can be read is not nested deeper than the
    limit, so no level is missed. -/
def documentSymbols? : Json → Option (List DocumentSymbol) :=
  list? (documentSymbol? (Json.nestingLimit + 1))

def symbolInformations? : Json → Option (List SymbolInformation) :=
  list? symbolInformation?

/-- The symbols of a document that is a forest, or else a flat list. -/
def symbols? (json : Json) : Option (List Symbol) :=
  ((documentSymbols? json).map symbolsOf).or
    ((symbolInformations? json).map (·.map SymbolInformation.toSymbol))

open Json.Reader in
/-- Reads an answer; `null` stands for no symbols. -/
def answer : Json.Reader (List Symbol) := do
  match ← peek with
  | some 'n' =>
    letters "null".toList
    return []
  | _ =>
    match symbols? (← value Json.nestingLimit) with
    | some symbols => return symbols
    | none => fail .mismatch

def decodeSymbols (text : String) : Except Json.Fault (List Symbol) :=
  answer.onText text

end CodeOutline.Wire
