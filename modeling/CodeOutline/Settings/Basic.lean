import CodeOutline.Text.Basic

/-! # Settings

What can be set for the program: how folders are listed and how answers are printed.  Settings of
a project come before those of the user, except that patterns for files to leave out are gathered
from both.
-/

namespace CodeOutline

structure FolderSettings where
  concurrency : Nat := 16
  /-- The size up to which files are listed, in units of 1024 * 1024 bytes; zero for any. -/
  maxFileSizeMb : Nat := 5
  includeHidden : Bool := false
  respectGitignore : Bool := true
  exclude : List String := []
deriving DecidableEq, Repr

structure OutputSettings where
  format : String := "text"
deriving DecidableEq, Repr

structure Settings where
  folder : FolderSettings := {}
  output : OutputSettings := {}
deriving DecidableEq, Repr

def FolderSettings.maxFileSize (settings : FolderSettings) : Nat :=
  if settings.maxFileSizeMb = 0 then Word.max64 else settings.maxFileSizeMb * 1024 * 1024

namespace Settings

/-- The patterns with those of a further list that are not there yet. -/
def addPatterns : List String → List String → List String
  | patterns, [] => patterns
  | patterns, pattern :: rest =>
    addPatterns (if patterns.contains pattern then patterns else patterns ++ [pattern]) rest

def merge (user project : Settings) : Settings :=
  { project with
    folder := { project.folder with
      exclude := addPatterns user.folder.exclude project.folder.exclude } }

end Settings

end CodeOutline
