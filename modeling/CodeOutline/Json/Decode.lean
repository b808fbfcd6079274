import CodeOutline.Json.Basic
import CodeOutline.Text.Basic

/-! # Decoding JSON values

Decoders from documents that have been read as a whole.  A decoder gives `none` on a document
of another shape.  As in `CodeOutline.Json.Direct`, a record is an object or the array of its
fields in their order, members with other keys do not matter, and a field may not be given
twice.
-/

namespace CodeOutline.Json

def word32? : Json → Option Nat
  | natural n => if n ≤ Word.max32 then some n else none
  | _ => none

def string? : Json → Option String
  | string text => some text
  | _ => none

def nullable? {α : Type} (decode : Json → Option α) : Json → Option (Option α)
  | null => some none
  | json => (decode json).map some

def list? {α : Type} (decode : Json → Option α) : Json → Option (List α)
  | array items => items.mapM decode
  | _ => none

/-- The value of a field, if it was not set before. -/
def once? {α : Type} (before : Option α) (decode : Json → Option α) (json : Json) :
    Option (Option α) :=
  match before with
  | some _ => none
  | none => (decode json).map some

/-- A record: `inOrder` decodes its fields from an array, `member` sets the field of a key, and
    `finish` gives the record unless a field is missing. -/
def record? {σ α : Type} (inOrder : List Json → Option α)
    (member : σ → String × Json → Option σ) (start : σ) (finish : σ → Option α) :
    Json → Option α
  | array items => inOrder items
  | object members => (members.foldlM member start).bind finish
  | _ => none

end CodeOutline.Json
