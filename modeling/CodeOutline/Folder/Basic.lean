import CodeOutline.Folder.FanOut
import CodeOutline.Outline.Render
import CodeOutline.Provider
import CodeOutline.Text.Basic

/-! # Folder outlines

The outline of a folder is a block for each of its files: the path of the file, a line of three
dashes, the outline of the file and an empty line.  Files that are too large, that cannot be
read as text or that no provider gives symbols for are left out.
-/

namespace CodeOutline

namespace Folder

structure Entry where
  path : String
  text : String
  symbols : List Symbol

structure Limits where
  width : Nat := 16
  maxSize : Nat := Word.max64

/-! ## Fetching -/

def isTooLarge (disk : Disk) (here : Place) (maxSize : Nat) (path : String) : Bool :=
  match disk.readBytes here path with
  | .ok content => maxSize < content.size
  | .error _ => false

/-- A file with its text and its symbols, unless it is left out. -/
def fetch (disk : Disk) (here : Place) (provider : Provider) (maxSize : Nat) (path : String) :
    Option Entry :=
  if isTooLarge disk here maxSize path then none
  else
    match disk.readText here path with
    | .error _ => none
    | .ok text =>
      match provider path text with
      | .ok (some symbols) => some ⟨path, text, symbols⟩
      | _ => none

def collect (disk : Disk) (here : Place) (provider : Provider) (limits : Limits)
    (paths : List String) : List Entry :=
  (FanOut.run (fetch disk here provider limits.maxSize) limits.width paths).filterMap id

/-! ## Rendering -/

def renderBlock (root : String) (entry : Entry) : Except RenderError String := do
  let outline ← Outline.render (.ofText entry.text) entry.symbols
  return Path.relativeTo root entry.path ++ "\n---\n" ++ outline ++ "\n"

/-- The blocks of files, or the error of the first one that cannot be rendered. -/
def renderBlocks (root : String) : List Entry → Except RenderError String
  | [] => .ok ""
  | entry :: rest => do
    let block ← renderBlock root entry
    let blocks ← renderBlocks root rest
    return block ++ blocks

def countSymbols : List Entry → Nat
  | [] => 0
  | entry :: rest => Symbol.countAll entry.symbols + countSymbols rest

end Folder

end CodeOutline
