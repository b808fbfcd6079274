import CodeOutline.Symbol.Basic

/-! # Document symbols on the wire

What a language server answers when it is asked for the symbols of a document: either a
forest of `DocumentSymbol`s or a flat list of `SymbolInformation`s.  Both give the symbols of
an outline; the line of a symbol is the one its name stands on.

While a record is decoded, a draft holds the fields seen so far.  `finish?` turns a draft into
the record if no field is missing.
-/

namespace CodeOutline.Wire

/-! ## The records -/

structure Position where
  line : Nat
  character : Nat
deriving DecidableEq, Repr, Inhabited

structure Range where
  first : Position
  last : Position
deriving DecidableEq, Repr, Inhabited

structure DocumentSymbol where
  name : String
  detail : Option String
  kind : Kind
  range : Range
  selectionRange : Range
  children : Option (List DocumentSymbol)
deriving Repr, Inhabited

structure Location where
  uri : String
  range : Range
deriving DecidableEq, Repr, Inhabited

structure SymbolInformation where
  name : String
  kind : Kind
  location : Location
  containerName : Option String
deriving DecidableEq, Repr, Inhabited

def Range.origin : Range :=
  ⟨⟨0, 0⟩, ⟨0, 0⟩⟩

/-! ## As symbols of an outline -/

mutual

def DocumentSymbol.toSymbol : DocumentSymbol → Symbol
  | ⟨name, _, kind, _, selectionRange, children⟩ =>
    ⟨name, kind, selectionRange.first.line, symbolsWithin children⟩

def symbolsWithin : Option (List DocumentSymbol) → List Symbol
  | none => []
  | some symbols => symbolsOf symbols

def symbolsOf : List DocumentSymbol → List Symbol
  | [] => []
  | symbol :: rest => symbol.toSymbol :: symbolsOf rest

end

def SymbolInformation.toSymbol (info : SymbolInformation) : Symbol :=
  ⟨info.name, info.kind, info.location.range.first.line, []⟩

/-! ## Drafts -/

structure Position.Draft where
  line : Option Nat := none
  character : Option Nat := none

def Position.Draft.finish? (draft : Position.Draft) : Option Position := do
  return ⟨← draft.line, ← draft.character⟩

structure Range.Draft where
  first : Option Position := none
  last : Option Position := none

def Range.Draft.finish? (draft : Range.Draft) : Option Range := do
  return ⟨← draft.first, ← draft.last⟩

structure DocumentSymbol.Draft where
  name : Option String := none
  detail : Option (Option String) := none
  kind : Option Kind := none
  range : Option Range := none
  selectionRange : Option Range := none
  children : Option (Option (List DocumentSymbol)) := none

/-- The document symbol, if no field is missing; `detail` and `children` may be. -/
def DocumentSymbol.Draft.finish? (draft : DocumentSymbol.Draft) : Option DocumentSymbol := do
  return ⟨← draft.name, draft.detail.join, ← draft.kind, ← draft.range, ← draft.selectionRange,
    draft.children.join⟩

structure Location.Draft where
  uri : Option String := none
  range : Option Range := none

def Location.Draft.finish? (draft : Location.Draft) : Option Location := do
  return ⟨← draft.uri, draft.range.getD Range.origin⟩

structure SymbolInformation.Draft where
  name : Option String := none
  kind : Option Kind := none
  location : Option Location := none
  containerName : Option (Option String) := none

def SymbolInformation.Draft.finish? (draft : SymbolInformation.Draft) :
    Option SymbolInformation := do
  return ⟨← draft.name, ← draft.kind, ← draft.location, draft.containerName.join⟩

end CodeOutline.Wire
