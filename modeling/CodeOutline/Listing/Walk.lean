import CodeOutline.Ignore.Personal
import CodeOutline.Language.Basic
import CodeOutline.Listing.Filter

/-! # Listing files

The files below the root of a filter are found by a walk that does not enter folders which
ignore files rule out.  The ignore files of all folders from the top of the disk down to the
folder at hand are asked.  What the walk finds is then put to the filter itself, restricted to
the wanted extensions and sorted.
-/

namespace CodeOutline

namespace Walk

/-! ## What is asked at a folder -/

structure Scope where
  /-- The levels from the folder up to the root of the walk, by the paths of the walk. -/
  inside : List Level
  /-- The levels of the folders above the root, by their paths from the top. -/
  outside : List Level
  root : String
  /-- The path of the root from the top. -/
  realRoot : String
  personal : RuleSet
  includeHidden : Bool
  useGit : Bool

def Scope.realPath (scope : Scope) (path : String) : String :=
  Path.join scope.realRoot (innerFrom scope.root path)

/-- The verdict of one kind of ignore files, the nearest folder first. -/
def Scope.kindVerdict? (scope : Scope) (kind : Level → RuleSet) (path : String)
    (isFolder : Bool) : Option Verdict :=
  (firstVerdict? (scope.inside.map kind) path isFolder).or
    (firstVerdict? (scope.outside.map kind) (scope.realPath path) isFolder)

def Scope.verdict? (scope : Scope) (path : String) (isFolder : Bool) : Option Verdict :=
  let path := dropHere path
  (scope.kindVerdict? Level.general path isFolder).or
    ((scope.kindVerdict? Level.versioned path isFolder).or
      ((scope.kindVerdict? Level.unversioned path isFolder).or
        (scope.personal.verdict? path isFolder)))

/-- Whether the walk passes over something with the given path and name.  Hidden names are
    passed over unless a rule keeps them. -/
def Scope.skips (scope : Scope) (path name : String) (isFolder : Bool) : Bool :=
  match scope.verdict? path isFolder with
  | some verdict => verdict == .ignore
  | none => !scope.includeHidden && isHiddenName name

def Scope.enter (scope : Scope) (disk : Disk) (here : Place) (path : String) (place : Place) :
    Scope :=
  { scope with inside := Level.ofFolder disk here scope.useGit path place :: scope.inside }

/-! ## The walk -/

def filesBelow (disk : Disk) (here : Place) : Nat → Scope → String → Place → List String
  | 0, _, _, _ => []
  | depth + 1, scope, path, place =>
    (disk.names place).flatMap fun name =>
      let inner := Path.join path name
      match disk.item? (place ++ [name]) with
      | none => []
      | some (.file _) => if scope.skips inner name false then [] else [inner]
      | some .folder =>
        if scope.skips inner name true then []
        else
          filesBelow disk here depth (scope.enter disk here inner (place ++ [name])) inner
            (place ++ [name])

def placesAbove (place : Place) : List Place :=
  ((List.range place.length).map place.take).reverse

def scopeAt (machine : Machine) (options : Filter.Options) (place : Place) : Scope :=
  let level := Level.ofFolder machine.disk machine.here options.useGit
  { inside := [level options.root place]
    outside := (placesAbove place).map fun above => level (Machine.pathOf above) above
    root := options.root
    realRoot := Machine.pathOf place
    personal := if options.useGit then Personal.rules machine else ⟨machine.herePath, []⟩
    includeHidden := options.includeHidden
    useGit := options.useGit }

/-- The paths of the files a walk finds.  The disk has no more levels than entries. -/
def files (machine : Machine) (options : Filter.Options) : List String :=
  match machine.disk.find machine.here options.root with
  | .error _ => []
  | .ok (_, .file _) => [options.root]
  | .ok (place, .folder) =>
    filesBelow machine.disk machine.here (machine.disk.entries.length + 1) (scopeAt machine options place)
      options.root place

end Walk

namespace Filter

/-- Whether a path has one of the wanted extensions; an empty list stands for all. -/
def hasExtension (extensions : List String) (path : String) : Bool :=
  extensions.isEmpty || extensions.contains ((Path.extension? path).getD "")

/-- The files below the root that are not left out and have one of the wanted extensions, in
    the order of paths. -/
def discover (filter : Filter) (machine : Machine) (extensions : List String) : List String :=
  ((Walk.files machine filter.options).filter fun path =>
    hasExtension extensions path && !filter.isIgnored machine.disk machine.here path).mergeSort
      Path.le

end Filter

end CodeOutline
