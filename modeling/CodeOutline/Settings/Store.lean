import CodeOutline.Machine
import CodeOutline.Settings.Decode
import CodeOutline.Settings.Encode

/-! # Where settings are kept

A user's settings and a project's settings are files of their own, and two variables of the
environment come before both.  A file that is not there sets nothing.
-/

namespace CodeOutline

inductive SettingsError where
  | inaccessible (fault : Disk.Fault)
  /-- A file is not TOML, or sets something to a value of the wrong type. -/
  | malformed (path : String)
  | invalid (key message : String)
deriving DecidableEq, Repr

def SettingsError.message : SettingsError → String
  | inaccessible fault => fault.message
  | malformed path => "Config parse error: " ++ path ++ ": TOML parse error"
  | invalid key message => "Invalid value for '" ++ key ++ "': " ++ message

namespace Settings

/-! ## Paths -/

inductive Scope where
  | user
  | project
deriving DecidableEq, Repr

def userPath (machine : Machine) : String :=
  let folder :=
    ((machine.valueOf? "XDG_CONFIG_HOME").or (machine.home?.map (Path.join · ".config"))).getD "."
  Path.join (Path.join folder "symlist") "config.toml"

def projectPath (root : String) : String :=
  Path.join (Path.join root ".symlist") "config.toml"

def path (machine : Machine) (root : String) : Scope → String
  | .user => userPath machine
  | .project => projectPath root

/-! ## Reading -/

def read (machine : Machine) (path : String) : Except SettingsError (Option Settings) :=
  if machine.disk.exists? machine.here path then
    match machine.readText path with
    | .error fault => .error (.inaccessible fault)
    | .ok text =>
      match ofText? text with
      | none => .error (.malformed path)
      | some settings => .ok (some settings)
  else .ok none

/-- The settings of a user and a project, either of which may be missing. -/
def combine : Option Settings → Option Settings → Settings
  | some user, some project => merge user project
  | user, project => (project.or user).getD {}

/-- The number a text stands for: digits, with a plus sign before them if need be. -/
def readCount? (text : String) : Option Nat :=
  let digits :=
    match text.toList with
    | '+' :: rest => rest
    | chars => chars
  let value := digits.foldl (fun n c => n * 10 + (c.toNat - '0'.toNat)) 0
  if !digits.isEmpty && digits.all Char.isDigit && value ≤ Word.max64 then some value else none

def withVariables (machine : Machine) (settings : Settings) : Except SettingsError Settings :=
  let settings :=
    match machine.valueOf? "SYMLIST_OUTPUT_FORMAT" with
    | none => settings
    | some format => { settings with output.format := format }
  match machine.valueOf? "SYMLIST_CONCURRENCY" with
  | none => .ok settings
  | some text =>
    match readCount? text with
    | none =>
      .error (.invalid "SYMLIST_CONCURRENCY" ("expected a positive integer, got '" ++ text ++ "'"))
    | some count => .ok { settings with folder.concurrency := count }

def loadUser (machine : Machine) : Except SettingsError Settings := do
  return (← read machine (userPath machine)).getD {}

def load (machine : Machine) (root : String) : Except SettingsError Settings := do
  let user ← read machine (userPath machine)
  let project ← read machine (projectPath root)
  withVariables machine (combine user project)

/-! ## Writing -/

/-- Writes a file with all settings as they are when nothing is set, and gives the disk
    afterwards and the path of the file.  Unless `force` is given, something that the path leads to is
    not replaced; but that is asked before the folders of the path are made.  If the file cannot be
    written, these folders stay, and so does what fits of a file for which the disk has no `room`. -/
def init (machine : Machine) (root : String) (scope : Scope) (force : Bool) (room : Option Nat) :
    Disk × Except SettingsError String :=
  let target := path machine root scope
  if machine.disk.exists? machine.here target && !force then
    (machine.disk, .error (.invalid "config"
      ("Config already exists: " ++ target ++ ". Use --force to overwrite.")))
  else
    match machine.disk.makeFolders machine.here ((Path.parent? target).getD "") with
    | (disk, some fault) => (disk, .error (.inaccessible fault))
    | (disk, none) =>
      match disk.writeWithin room machine.here target defaultText.toUTF8 with
      | (disk, some fault) => (disk, .error (.inaccessible fault))
      | (disk, none) => (disk, .ok target)

end Settings

end CodeOutline
