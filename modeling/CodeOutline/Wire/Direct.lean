import CodeOutline.Json.Direct
import CodeOutline.Language.Basic
import CodeOutline.Wire.Basic

/-! # Reading document symbols directly

The readers of this module take the wire records from a text as they go, for a caller who knows
whether the answer is a forest or a flat list.  Kinds and languages by themselves are read here
too.
-/

namespace CodeOutline.Wire

open Json (Reader)
open Json.Reader

/-! ## The records -/

def readKind : Reader Kind := do
  return Kind.ofCode (← word32)

def readPosition (nesting : Nat) : Reader Position :=
  record nesting
    (fun _ => do return ⟨← field true word32, ← field false word32⟩)
    (fun _ draft key =>
      match key with
      | "line" => do return { draft with line := ← once draft.line word32 }
      | "character" => do return { draft with character := ← once draft.character word32 }
      | _ => otherMember draft)
    {} Position.Draft.finish?

def readRange (nesting : Nat) : Reader Range :=
  record nesting
    (fun n => do return ⟨← field true (readPosition n), ← field false (readPosition n)⟩)
    (fun n draft key =>
      match key with
      | "start" => do return { draft with first := ← once draft.first (readPosition n) }
      | "end" => do return { draft with last := ← once draft.last (readPosition n) }
      | _ => otherMember draft)
    {} Range.Draft.finish?

def readDocumentSymbol : Nat → Nat → Reader DocumentSymbol
  | 0, _ => fail .malformed
  | levels + 1, nesting =>
    let readChildren := fun n => nullable (list n (readDocumentSymbol levels))
    record nesting
      (fun n => do
        return ⟨← field true string, ← field false (nullable string), ← field false readKind,
          ← field false (readRange n), ← field false (readRange n), ← field false (readChildren n)⟩)
      (fun n draft key =>
        match key with
        | "name" => do return { draft with name := ← once draft.name string }
        | "detail" => do return { draft with detail := ← once draft.detail (nullable string) }
        | "kind" => do return { draft with kind := ← once draft.kind readKind }
        | "range" => do return { draft with range := ← once draft.range (readRange n) }
        | "selectionRange" => do
          return { draft with selectionRange := ← once draft.selectionRange (readRange n) }
        | "children" => do return { draft with children := ← once draft.children (readChildren n) }
        | _ => otherMember draft)
      {} DocumentSymbol.Draft.finish?

def readLocation (nesting : Nat) : Reader Location :=
  record nesting
    (fun n => do
      let uri ← field true string
      return ⟨uri, (← field? false (readRange n)).getD Range.origin⟩)
    (fun n draft key =>
      match key with
      | "uri" => do return { draft with uri := ← once draft.uri string }
      | "range" => do return { draft with range := ← once draft.range (readRange n) }
      | _ => otherMember draft)
    {} Location.Draft.finish?

def readSymbolInformation (nesting : Nat) : Reader SymbolInformation :=
  record nesting
    (fun n => do
      return ⟨← field true string, ← field false readKind, ← field false (readLocation n),
        ← field false (nullable string)⟩)
    (fun n draft key =>
      match key with
      | "name" => do return { draft with name := ← once draft.name string }
      | "kind" => do return { draft with kind := ← once draft.kind readKind }
      | "location" => do return { draft with location := ← once draft.location (readLocation n) }
      | "containerName" => do
        return { draft with containerName := ← once draft.containerName (nullable string) }
      | _ => otherMember draft)
    {} SymbolInformation.Draft.finish?

/-! ## Whole texts -/

def readDocumentSymbols (text : String) : Except Json.Fault (List DocumentSymbol) :=
  (list Json.nestingLimit (readDocumentSymbol (Json.nestingLimit + 1))).onText text

def readSymbolInformations (text : String) : Except Json.Fault (List SymbolInformation) :=
  (list Json.nestingLimit readSymbolInformation).onText text

def readKindText (text : String) : Except Json.Fault Kind :=
  readKind.onText text

/-! ## Languages -/

def readTag : Reader Language := do
  match Language.ofTag? (← string) with
  | some language => return language
  | none => fail .mismatch

/-- Reads a language: its tag, or an object with its tag for the only key and `null` for the
    value. -/
def readLanguage : Reader Language := do
  match ← peek with
  | none => fail .endOfText
  | some c =>
    if c = '"' then readTag
    else if c = '\x7b' then
      advance
      let language ← readTag
      colon
      match ← peek with
      | none => fail .endOfText
      | some d =>
        if d = 'n' then letters "null".toList else refuse d
      match ← peek with
      | none => fail .endOfText
      | some d => if d = '}' then advance else fail .malformed
      return language
    else fail .malformed

def readLanguageText (text : String) : Except Json.Fault Language :=
  readLanguage.onText text

end CodeOutline.Wire
