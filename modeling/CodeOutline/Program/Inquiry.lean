import CodeOutline.Program.Failure
import CodeOutline.Program.Session
import CodeOutline.Symbol.Kind

/-! # Inquiries

The tasks besides outlining: showing the labels of kinds, and showing, finding and making files
of settings.  Their answers are always printed.
-/

namespace CodeOutline

/-! ## Kinds -/

def labelledKinds : List (Nat × String) :=
  Kind.all.filterMap fun kind => kind.label?.map fun label => (kind.code, label)

def twoColumns (n : Nat) : String :=
  if n < 10 then " " ++ toString n else toString n

def kindsText (format : Format) : String :=
  match format with
  | .text =>
    String.join (labelledKinds.map fun (code, label) => twoColumns code ++ "  " ++ label ++ "\n")
  | .json =>
    let kinds := labelledKinds.map fun (code, label) =>
      Json.object [("label", .string label), ("lsp", .natural code)]
    Report.answer .json (.object [("count", .natural kinds.length), ("kinds", .array kinds)])

/-! ## Settings -/

namespace Settings

def toJson (settings : Settings) : Json :=
  .object [
    ("folder", .object [
      ("concurrency", .natural settings.folder.concurrency),
      ("exclude", .array (settings.folder.exclude.map .string)),
      ("include_hidden", .bool settings.folder.includeHidden),
      ("max_file_size_mb", .natural settings.folder.maxFileSizeMb),
      ("respect_gitignore", .bool settings.folder.respectGitignore)]),
    ("output", .object [("format", .string settings.output.format)])]

namespace Scope

def ofFlag (global : Bool) : Scope :=
  if global then user else project

def name : Scope → String
  | user => "global"
  | project => "project"

end Scope

end Settings

namespace Session

/-- How the path of a file of settings is shown: that of a project from its root. -/
def showPath (session : Session) (path : String) : Settings.Scope → String
  | .user => path
  | .project => Path.shownFrom session.root path

def initSettings (machine : Machine) (session : Session) (scope : Settings.Scope) (force : Bool) :
    Disk × Except Failure String :=
  match Settings.init machine session.root scope force none with
  | (disk, .error error) => (disk, .error (.settings error))
  | (disk, .ok path) =>
    (disk, .ok (Report.answer session.format (.object [
      ("level", .string scope.name), ("path", .string (session.showPath path scope)),
      ("status", .string "created")])))

def showSettings (machine : Machine) (session : Session) (global : Bool) : Except Failure String :=
  match if global then Settings.loadUser machine else Settings.load machine session.root with
  | .error error => .error (.settings error)
  | .ok settings =>
    .ok (Report.answer session.format (.object [
      ("config", settings.toJson),
      ("level", .string (if global then "global" else "merged"))]))

def showSettingsPath (machine : Machine) (session : Session) (scope : Settings.Scope) : String :=
  let path := Settings.path machine session.root scope
  Report.answer session.format (.object [
    ("exists", .bool (machine.disk.exists? machine.here path)), ("level", .string scope.name),
    ("path", .string (session.showPath path scope))])

end Session

end CodeOutline
