import CodeOutline.Json.Basic
import CodeOutline.Wire.Basic

/-! # Encoding document symbols

The wire records as JSON.  Fields come in the order of the records, and optional fields that
are not set are left out.
-/

namespace CodeOutline.Wire

def Position.toJson (position : Position) : Json :=
  .object [("line", .natural position.line), ("character", .natural position.character)]

def Range.toJson (range : Range) : Json :=
  .object [("start", range.first.toJson), ("end", range.last.toJson)]

def optionalMember {α : Type} (key : String) (encode : α → Json) : Option α → List (String × Json)
  | none => []
  | some a => [(key, encode a)]

mutual

def DocumentSymbol.toJson : DocumentSymbol → Json
  | ⟨name, detail, kind, range, selectionRange, children⟩ =>
    .object (("name", .string name) :: optionalMember "detail" .string detail ++
      [("kind", .natural kind.code), ("range", range.toJson),
        ("selectionRange", selectionRange.toJson)] ++ childrenMember children)

def childrenMember : Option (List DocumentSymbol) → List (String × Json)
  | none => []
  | some symbols => [("children", .array (documentSymbolsToJson symbols))]

def documentSymbolsToJson : List DocumentSymbol → List Json
  | [] => []
  | symbol :: rest => symbol.toJson :: documentSymbolsToJson rest

end

def Location.toJson (location : Location) : Json :=
  .object [("uri", .string location.uri), ("range", location.range.toJson)]

def SymbolInformation.toJson (info : SymbolInformation) : Json :=
  .object ([("name", .string info.name), ("kind", .natural info.kind.code),
    ("location", info.location.toJson)] ++ optionalMember "containerName" .string info.containerName)

def encodeDocumentSymbols (symbols : List DocumentSymbol) : Json :=
  .array (documentSymbolsToJson symbols)

def encodeSymbolInformations (infos : List SymbolInformation) : Json :=
  .array (infos.map SymbolInformation.toJson)

end CodeOutline.Wire
