import CodeOutline.Folder.Basic
import CodeOutline.Listing.Walk
import CodeOutline.Program.Failure
import CodeOutline.Program.Session

/-! # Outlining files and folders

The two tasks the program is there for.  Both find out first whether there is anything to
outline, and write nothing before the whole outline is there.
-/

namespace CodeOutline

/-! ## What is told -/

structure OutlineAnswer where
  target : String
  files : Nat
  symbols : Nat
  outline : String

namespace OutlineAnswer

def toJson (answer : OutlineAnswer) : Json :=
  .object [("files", .natural answer.files), ("outline", .string answer.outline),
    ("symbols", .natural answer.symbols), ("target", .string answer.target)]

/-- An answer as it is written: the bare outline, or a document that holds it. -/
def content (format : Format) (answer : OutlineAnswer) : String :=
  match format with
  | .text => answer.outline
  | .json => Report.document (Report.envelope answer.toJson)

/-- The disk afterwards and what is printed: the answer is printed unless the session has a
    destination for it. -/
def deliver (machine : Machine) (session : Session) (answer : OutlineAnswer) :
    Disk × Except Failure String :=
  let content := answer.content session.format
  match session.destination with
  | none => (machine.disk, .ok content)
  | some path =>
    match machine.disk.write machine.here path content.toUTF8 with
    | .error fault => (machine.disk, .error (.inaccessible fault))
    | .ok disk => (disk, .ok "")

def deliverResult (machine : Machine) (session : Session) :
    Except Failure OutlineAnswer → Disk × Except Failure String
  | .error failure => (machine.disk, .error failure)
  | .ok answer => answer.deliver machine session

end OutlineAnswer

namespace Session

/-! ## One file -/

/-- The provider for one file: a saved answer if one is named, and the syntax tree otherwise. -/
def fileProvider (grammars : Grammars) (machine : Machine) (saved : Option String) : Provider :=
  match saved with
  | none => Provider.ofGrammars grammars
  | some argument =>
    Provider.ofSaved
      ((Provider.Source.ofArgument argument).read machine.disk machine.here machine.input)

def outlineFile (grammars : Grammars) (machine : Machine) (session : Session) (file : String)
    (saved : Option String) : Except Failure OutlineAnswer :=
  let path := Path.join session.root file
  if !machine.disk.isFile machine.here path then
    .error (.missing ("There must be a file to list: " ++ file))
  else
    match machine.readText path with
    | .error fault => .error (.inaccessible fault)
    | .ok text =>
      match fileProvider grammars machine saved path text with
      | .error error => .error (.provider error)
      | .ok none => .error (.provider (.unsupported (Language.ofPath path)))
      | .ok (some symbols) =>
        match Outline.render (.ofText text) symbols with
        | .error error => .error (.render error)
        | .ok outline =>
          .ok {
            target := Path.shownFrom session.root path
            files := 1
            symbols := Symbol.countAll symbols
            outline }

/-! ## The files of a folder -/

def folderFilter (machine : Machine) (session : Session) (path : String) (excludes : List String)
    (hidden : Bool) : Filter :=
  let settings := session.settings.folder
  Filter.ofOptions machine.disk machine.here {
    root := path
    useGit := settings.respectGitignore
    excludes := settings.exclude ++ excludes
    includeHidden := hidden || settings.includeHidden }

def folderEntries (grammars : Grammars) (machine : Machine) (session : Session) (path : String)
    (excludes : List String) (hidden : Bool) : List Folder.Entry :=
  let settings := session.settings.folder
  Folder.collect machine.disk machine.here (Provider.ofGrammars grammars)
    { width := settings.concurrency, maxSize := settings.maxFileSize }
    ((folderFilter machine session path excludes hidden).discover machine Language.allExtensions)

def outlineFolder (grammars : Grammars) (machine : Machine) (session : Session) (folder : String)
    (excludes : List String) (hidden : Bool) : Except Failure OutlineAnswer :=
  let path := Path.join session.root folder
  if !machine.disk.isFolder machine.here path then
    .error (.missing ("There must be a folder to list: " ++ folder))
  else
    let entries := folderEntries grammars machine session path excludes hidden
    match Folder.renderBlocks session.root entries with
    | .error error => .error (.render error)
    | .ok outline =>
      .ok {
        target := Path.shownFrom session.root path
        files := entries.length
        symbols := Folder.countSymbols entries
        outline }

end Session

end CodeOutline
