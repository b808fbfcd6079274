import CodeOutline.Disk.Access

/-! # Machines

All that a run of the program can see: the disk, the working folder, the variables of the
environment, the standard input and the user's account.

What is left out: variables and arguments whose bytes are not UTF-8, what other programs do to the
disk during a run, and a standard output or error that does not take what is written to it.  A disk
that is full only matters where settings are written (`Disk.writeWithin`); answers are taken to have room.
-/

namespace CodeOutline

structure Machine where
  disk : Disk
  here : Place
  environment : List (String × String)
  input : ByteArray
  accountHome : Option String := none

namespace Machine

def valueOf? (machine : Machine) (name : String) : Option String :=
  machine.environment.lookup name

def setVariable (machine : Machine) (name : String) (value : Option String) : Machine :=
  let others := machine.environment.filter (·.1 ≠ name)
  { machine with
    environment :=
      match value with
      | none => others
      | some text => (name, text) :: others }

def pathOf (place : Place) : String :=
  "/" ++ "/".intercalate place

def herePath (machine : Machine) : String :=
  pathOf machine.here

/-- The home folder of the user: the one that a variable names, or that of the account. -/
def home? (machine : Machine) : Option String :=
  ((machine.valueOf? "HOME").filter fun path => !path.isEmpty).or machine.accountHome

def readText (machine : Machine) (path : String) : Except Disk.Fault String :=
  machine.disk.readText machine.here path

end Machine

end CodeOutline
