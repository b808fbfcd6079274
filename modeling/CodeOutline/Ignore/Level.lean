import CodeOutline.Disk.Access
import CodeOutline.Ignore.Rule
import CodeOutline.Text.Pattern

/-! # Levels of ignore rules

Ignore files apply to the folder they are in and to everything below it.  So for a path there
is a level of rules for each folder above it.  There are three kinds of ignore files, and rules
of an earlier kind come before those of a later one whatever their levels; within a kind the
nearest folder comes first.  The rules a user has set for all folders come last.

The data of version control is a folder, or a file that names a folder elsewhere, which in turn
names the one it shares with others.  The paths written in these files start from the working
folder.
-/

namespace CodeOutline

/-! ## Rules for the paths below a folder -/

/-- Rules with the path of the folder their globs start from. -/
structure RuleSet where
  base : String
  rules : List Rule

def dropHere (path : String) : String :=
  match path.toList with
  | '.' :: '/' :: rest => String.ofList rest
  | _ => path

/-- The part of a path that globs are matched with which start from a base.  If the path is more
    than a name, the text of the base is dropped from its front, and a slash behind it.  Only texts
    are compared, so that the base is also dropped from a name that starts like it, and from a
    path that is given from the base on. -/
def innerFrom (base path : String) : String :=
  let base := dropHere base
  let path := dropHere path
  if base = "." || !path.toList.contains '/' then path
  else
    match Text.Pattern.dropFront base.toList path.toList with
    | none => path
    | some ('/' :: rest) => String.ofList rest
    | some rest => String.ofList rest

def RuleSet.verdict? (set : RuleSet) (path : String) (isFolder : Bool) : Option Verdict :=
  Rule.verdict? set.rules (innerFrom set.base path) isFolder

/-- The verdict about a path or else about the nearest folder above it that has one. -/
def Rule.verdictUp? (rules : List Rule) (path : String) (isFolder : Bool) : Option Verdict :=
  (Rule.verdict? rules path isFolder).or
    ((Path.ancestors path).findSome? fun folder => Rule.verdict? rules folder true)

def RuleSet.verdictUp? (set : RuleSet) (path : String) (isFolder : Bool) : Option Verdict :=
  Rule.verdictUp? set.rules (innerFrom set.base path) isFolder

/-! ## Folders -/

structure Level where
  general : RuleSet
  versioned : RuleSet
  /-- Rules of version control that are not versioned themselves. -/
  unversioned : RuleSet

def firstLineAt? (disk : Disk) (here : Place) (path : String) : Option String :=
  (disk.readBytes here path).toOption.bind Rule.firstLine?

/-- The path of the data of version control that a file with the given content stands for. -/
def namedData? (content : ByteArray) : Option String := do
  let line ← Rule.firstLine? content
  return String.ofList (← Text.Pattern.dropFront "gitdir: ".toList line.toList)

/-- The path of the data that the data at a path is shared from. -/
def sharedData? (disk : Disk) (here : Place) (data : String) : Option String := do
  let shared ← firstLineAt? disk here (Path.join data "commondir")
  return if shared.toList.head? = some '.' then Path.join data shared else shared

def unversionedRules (disk : Disk) (here place : Place) : List Rule :=
  match disk.item? (place ++ [".git"]) with
  | some (.file content) =>
    let shared := (namedData? content).bind (sharedData? disk here)
    (shared.bind fun data =>
      (disk.readBytes here (Path.join data "info/exclude")).toOption.map Rule.ofContent).getD []
  | _ => Rule.ofPlace disk (place ++ [".git", "info", "exclude"])

/-- The rules of a folder, given by its path and its place.  The files of version control count
    only if `useGit` says so. -/
def Level.ofFolder (disk : Disk) (here : Place) (useGit : Bool) (path : String) (place : Place) :
    Level :=
  { general := ⟨path, Rule.ofPlace disk (place ++ [".ignore"])⟩
    versioned := ⟨path, if useGit then Rule.ofPlace disk (place ++ [".gitignore"]) else []⟩
    unversioned := ⟨path, if useGit then unversionedRules disk here place else []⟩ }

def firstVerdict? (sets : List RuleSet) (path : String) (isFolder : Bool) : Option Verdict :=
  sets.findSome? fun set => set.verdict? path isFolder

end CodeOutline
