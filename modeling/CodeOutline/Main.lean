import CodeOutline.Program.Run

/-! # The command line

The outer layer of the program.  It copies the part of the disk that a run can look at, runs the
program on the copy, and then writes what the run has changed.  All decisions are made by
`CodeOutline.run`.

No grammars are linked into the executable, so every text has an empty syntax tree; symbols come
from saved answers.
-/

namespace CodeOutline

/-! ## The part of the disk a run can look at -/

/-- Every text has an empty syntax tree. -/
def noGrammars : Grammars := fun _ _ => default

/-- The place a path names, if no folder on the way is a link. -/
def placeOfPath (here : Place) (path : String) : Place :=
  (Path.components path).foldl
    (fun place component =>
      match component with
      | .root => []
      | .here => place
      | .parent => place.dropLast
      | .name text => place ++ [text])
    here

def placesDownTo (place : Place) : List Place :=
  (List.range (place.length + 1)).map place.take

def ignorePlaces (place : Place) : List Place :=
  (placesDownTo place).flatMap fun folder =>
    [folder ++ [".ignore"], folder ++ [".gitignore"], folder ++ [".git"],
      folder ++ [".git", "info", "exclude"]]

/-- The paths of the data of version control that files on a disk stand for. -/
def namedDataPaths (disk : Disk) : List String :=
  disk.entries.filterMap fun (place, item) =>
    match place.getLast?, item with
    | some ".git", .file content => namedData? content
    | _, _ => none

def filePaths (machine : Machine) (invocation : CommandLine.Invocation) : List String :=
  let settings := [Settings.userPath machine, Settings.projectPath machine.herePath]
  let personal := (Personal.settingsPaths machine).filterMap id
  let task :=
    match invocation.task with
    | .list file saved => file :: saved.toList
    | _ => []
  settings ++ personal ++ task ++ invocation.output.toList

def folderPath? (invocation : CommandLine.Invocation) : Option String :=
  match invocation.task with
  | .folder dir _ _ => some dir
  | _ => none

/-! ## Copying -/

/-- Copies what stands at a place onto a disk, and if `deep` all that is below it. -/
partial def copyPlace (deep : Bool) (disk : Disk) (place : Place) : IO Disk := do
  let path := (← IO.currentDir) / Machine.pathOf place
  if ← path.isDir then
    let disk := disk.withFolder place
    if deep then
      (← path.readDir).foldlM
        (fun disk entry => copyPlace deep disk (place ++ [entry.fileName])) disk
    else return disk
  else if ← path.pathExists then
    return disk.withFile place (← IO.FS.readBinFile path)
  else return disk

def copyFiles (machine : Machine) (places : List Place) : IO Machine := do
  let disk ← (places.flatMap placesDownTo).eraseDups.foldlM (copyPlace false) machine.disk
  return { machine with disk }

def copyFor (machine : Machine) (invocation : CommandLine.Invocation) : IO Machine := do
  let placeOf := placeOfPath machine.here
  let machine ← copyFiles machine (machine.here :: (filePaths machine invocation).map placeOf)
  let machine ← copyFiles machine ((Personal.path? machine).toList.map placeOf)
  match folderPath? invocation with
  | none => return machine
  | some path =>
    let machine ← copyFiles machine (ignorePlaces (placeOf path))
    let machine := { machine with disk := ← copyPlace true machine.disk (placeOf path) }
    let data := namedDataPaths machine.disk
    let machine ← copyFiles machine (data.map fun path => placeOf (Path.join path "commondir"))
    let shared := data.filterMap (sharedData? machine.disk machine.here)
    copyFiles machine (shared.map fun path => placeOf (Path.join path "info/exclude"))

def writeChanges (before after : Disk) : IO Unit := do
  let changes := after.entries.filter fun (place, item) => before.item? place ≠ some item
  let inOrder := changes.mergeSort fun a b => a.1.length ≤ b.1.length
  for (place, item) in inOrder do
    match item with
    | .folder => IO.FS.createDir (Machine.pathOf place)
    | .file content => IO.FS.writeBinFile (Machine.pathOf place) content

/-! ## Running -/

partial def readAll (stream : IO.FS.Stream) (before : ByteArray) : IO ByteArray := do
  let bytes ← stream.read 65536
  if bytes.isEmpty then return before else readAll stream (before ++ bytes)

def readInput (invocation : CommandLine.Invocation) : IO ByteArray := do
  match invocation.task with
  | .list _ (some "-") => readAll (← IO.getStdin) ByteArray.empty
  | _ => return ByteArray.empty

def variableNames : List String :=
  ["HOME", "XDG_CONFIG_HOME", "GIT_CONFIG_GLOBAL", "GIT_CONFIG_SYSTEM", "SYMLIST_OUTPUT_FORMAT",
    "SYMLIST_CONCURRENCY"]

def surroundings (input : ByteArray) : IO Machine := do
  let here := placeOfPath [] (← IO.currentDir).toString
  let environment ← variableNames.filterMapM fun name => do
    return (← IO.getEnv name).map fun value => (name, value)
  return { disk := Disk.empty, here, environment, input }

def usage : String :=
  "Usage: symlist [--format FORMAT] [-o FILE] [-v] COMMAND\n\n" ++
    "  list FILE [--symbols JSON]                outline of one file\n" ++
    "  folder DIR [-e GLOB]... [--hidden]        outline of the files in a folder\n" ++
    "  kinds                                     labels of symbol kinds\n" ++
    "  config init [--global] [-f]               make a file of settings\n" ++
    "  config show [--global]                    show settings\n" ++
    "  config path [--global]                    show where settings are\n"

def CommandLine.UsageError.report : CommandLine.UsageError → Report
  | helpWanted => { out := usage }
  | versionWanted => { out := "symlist 0.1.0\n" }
  | _ => { err := usage }

def Report.print (report : Report) : IO Unit := do
  IO.print report.out
  IO.eprint report.err

end CodeOutline

open CodeOutline in
def main (words : List String) : IO UInt32 := do
  match CommandLine.parse words with
  | .error error =>
    error.report.print
    return error.status.toUInt32
  | .ok invocation =>
    let machine ← copyFor (← surroundings (← readInput invocation)) invocation
    let outcome := invocation.run noGrammars machine
    writeChanges machine.disk outcome.disk
    outcome.report.print
    return outcome.status.toUInt32
