import CodeOutline.Output.Format
import CodeOutline.Settings.Store

/-! # Sessions

What is fixed for a run of the program once its settings are known: the root of the project, the
format of answers and where outlines go.

Settings that cannot be loaded are as good as none.  Only the format has to make sense; a format
given on the command line comes before that of the settings.
-/

namespace CodeOutline

def Format.parse (name : String) : Except SettingsError Format :=
  match ofName? name with
  | some format => .ok format
  | none => .error (.invalid "format" (unknownNameMessage name))

structure Session where
  root : String
  format : Format
  destination : Option String
  settings : Settings

namespace Session

/-- The settings in force in a project, or the defaults if they cannot be loaded. -/
def settingsOf (machine : Machine) (root : String) : Settings :=
  match Settings.load machine root with
  | .ok settings => settings
  | .error _ => {}

def start (machine : Machine) (root : String) (format destination : Option String) :
    Except SettingsError Session :=
  let settings := settingsOf machine root
  match Format.parse (format.getD settings.output.format) with
  | .error e => .error e
  | .ok format => .ok { root, format, destination, settings }

/-- The format errors are printed in.  It does not depend on settings, which may be the cause of
    the error. -/
def errorFormat (machine : Machine) (format : Option String) : Format :=
  ((format.or (machine.valueOf? "SYMLIST_OUTPUT_FORMAT")).bind Format.ofName?).getD .text

end Session

end CodeOutline
