import CodeOutline.Ignore.Level
import CodeOutline.Disk.Access

/-! # File filters

A filter tells which paths below its root are left out of a listing.  Some names are never
listed, and names that start with a dot only on demand.  Beyond that the rules in the root's own
ignore file are asked, and then the rules given to the filter: the first that know the path or a
folder above it decide.  Paths outside of the root are never left out.
-/

namespace CodeOutline

/-! ## Names that are never listed -/

/-- Names of files and folders that are never listed.  A star at the front stands for any
    beginning. -/
def builtinPatterns : List String :=
  [".git", ".svn", ".hg", "node_modules", "vendor", ".venv", "venv", "__pycache__", "target",
   "dist", "build", "out", ".next", "coverage", ".gradle", "*.swp", "*.swo", "*.log", ".symlist"]

def fitsBuiltin (pattern name : List Char) : Bool :=
  match pattern with
  | '*' :: ending => ending.isSuffixOf name
  | _ => pattern == name

def isNeverListed (name : String) : Bool :=
  builtinPatterns.any fun pattern => fitsBuiltin pattern.toList name.toList

def isHiddenName (name : String) : Bool :=
  name.toList.head? == some '.'

/-! ## Filters -/

structure Filter.Options where
  root : String
  useGit : Bool := true
  /-- Whether the ignore file of the root counts. -/
  useOwn : Bool := true
  excludes : List String := []
  includeHidden : Bool := false

structure Filter where
  options : Filter.Options
  own : RuleSet
  given : RuleSet

namespace Filter

def readOwnRules (disk : Disk) (here : Place) (root : String) : List Rule :=
  match disk.readBytes here (Path.join (Path.join root ".symlist") "ignore") with
  | .ok content => Rule.ofContent content
  | .error _ => []

def ofOptions (disk : Disk) (here : Place) (options : Options) : Filter :=
  { options
    own := ⟨options.root, if options.useOwn then readOwnRules disk here options.root else []⟩
    given := ⟨options.root, Rule.ofLines options.excludes⟩ }

/-- Whether something is left out by its name, which is given by its bytes.  A name that is not
    UTF-8 is not looked at, so that neither its ending nor a dot at its front counts. -/
def dropsBytes (filter : Filter) (name : ByteArray) : Bool :=
  match String.fromUTF8? name with
  | none => false
  | some text => isNeverListed text || (!filter.options.includeHidden && isHiddenName text)

def dropsName (filter : Filter) : Path.Component → Bool
  | .name text => filter.dropsBytes text.toUTF8
  | _ => false

/-- Whether a path is left out.  The rules are asked about the part of the path behind the root, and
    drop their base from it once more, which is the root as well. -/
def isIgnored (filter : Filter) (disk : Disk) (here : Place) (path : String) : Bool :=
  match Path.stripBase? filter.options.root path with
  | none => false
  | some inner =>
    (Path.components inner).any filter.dropsName ||
      ((filter.own.verdictUp? inner (disk.isFolder here path)).or
        (filter.given.verdictUp? inner (disk.isFolder here path))) == some .ignore

end Filter

end CodeOutline
