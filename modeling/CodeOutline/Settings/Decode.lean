import CodeOutline.Settings.Basic
import CodeOutline.Toml.Reader

/-! # Decoding settings

Settings are read from a TOML document.  Whatever is missing keeps its default, and keys that
mean nothing here are passed over.  A group of settings may also be written as the array of its
values in order, of which the last ones may be missing, and a date in the place of a group sets
nothing.
-/

namespace CodeOutline

namespace Toml

/-! ## Values -/

def natural? (limit : Nat) : Toml → Option Nat
  | integer value => if 0 ≤ value && value ≤ limit then some value.toNat else none
  | _ => none

def bool? : Toml → Option Bool
  | bool value => some value
  | _ => none

def string? : Toml → Option String
  | string text => some text
  | _ => none

def strings? : Toml → Option (List String)
  | array items => items.mapM string?
  | tables items => items.mapM string?
  | _ => none

/-! ## Groups -/

/-- What a group of settings is written as: how to look up a setting by its key and its
    position. -/
def group? : Toml → Option (String → Nat → Option Toml)
  | table _ entries => some fun key _ => entries.lookup key
  | array items => some fun _ index => items[index]?
  | tables items => some fun _ index => items[index]?
  | moment => some fun _ _ => none
  | _ => none

/-- The value of a setting, or its default if it is missing. -/
def setting? {α : Type} (decode : Toml → Option α) (default : α) : Option Toml → Option α
  | none => some default
  | some toml => decode toml

end Toml

open Toml

def FolderSettings.ofToml? (toml : Toml) : Option FolderSettings := do
  let find ← group? toml
  let defaults : FolderSettings := {}
  return {
    concurrency := ← setting? (natural? Word.max64) defaults.concurrency (find "concurrency" 0)
    maxFileSizeMb :=
      ← setting? (natural? Word.max32) defaults.maxFileSizeMb (find "max_file_size_mb" 1)
    includeHidden := ← setting? bool? defaults.includeHidden (find "include_hidden" 2)
    respectGitignore := ← setting? bool? defaults.respectGitignore (find "respect_gitignore" 3)
    exclude := ← setting? strings? defaults.exclude (find "exclude" 4) }

def OutputSettings.ofToml? (toml : Toml) : Option OutputSettings := do
  let find ← group? toml
  return { format := ← setting? Toml.string? ({} : OutputSettings).format (find "format" 0) }

def Settings.ofToml? (toml : Toml) : Option Settings := do
  let find ← group? toml
  return {
    folder := ← setting? FolderSettings.ofToml? {} (find "folder" 0)
    output := ← setting? OutputSettings.ofToml? {} (find "output" 1) }

def Settings.ofText? (text : String) : Option Settings :=
  (Toml.parse? text).bind Settings.ofToml?

end CodeOutline
