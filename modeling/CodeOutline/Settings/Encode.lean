import CodeOutline.Settings.Basic

/-! # Writing settings

Settings are written as a TOML document with a table for every group and a line for every setting.
An array with more than one element has a line for each of them.

Only the settings that are there by default are ever written, so that texts are put between quotes as
they are, without the escapes that some other texts would need.
-/

namespace CodeOutline

inductive Setting where
  | count (value : Nat)
  | flag (value : Bool)
  | text (value : String)
  | texts (values : List String)

namespace Setting

def writeText (value : String) : String :=
  "\"" ++ value ++ "\""

def writeLines : List String → String
  | [] => "\n]"
  | value :: rest => "\n    " ++ writeText value ++ "," ++ writeLines rest

def write : Setting → String
  | count value => toString value
  | flag true => "true"
  | flag false => "false"
  | text value => writeText value
  | texts [] => "[]"
  | texts [value] => "[" ++ writeText value ++ "]"
  | texts values => "[" ++ writeLines values

def writeEntries : List (String × Setting) → String
  | [] => ""
  | (key, setting) :: rest => key ++ " = " ++ setting.write ++ "\n" ++ writeEntries rest

def writeTables : List (String × List (String × Setting)) → String
  | [] => ""
  | [(name, entries)] => "[" ++ name ++ "]\n" ++ writeEntries entries
  | (name, entries) :: rest => "[" ++ name ++ "]\n" ++ writeEntries entries ++ "\n" ++ writeTables rest

end Setting

def FolderSettings.entries (settings : FolderSettings) : List (String × Setting) :=
  [("concurrency", .count settings.concurrency), ("max_file_size_mb", .count settings.maxFileSizeMb),
   ("include_hidden", .flag settings.includeHidden),
   ("respect_gitignore", .flag settings.respectGitignore), ("exclude", .texts settings.exclude)]

def OutputSettings.entries (settings : OutputSettings) : List (String × Setting) :=
  [("format", .text settings.format)]

namespace Settings

def toText (settings : Settings) : String :=
  Setting.writeTables [("folder", settings.folder.entries), ("output", settings.output.entries)]

/-- The file with all settings as they are when nothing is set. -/
def defaultText : String :=
  toText {}

end Settings

end CodeOutline
