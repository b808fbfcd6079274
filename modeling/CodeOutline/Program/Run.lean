import CodeOutline.CommandLine.Invocation
import CodeOutline.Program.Inquiry
import CodeOutline.Program.Outlining

/-! # Runs

A run of the program as a function of its surroundings: what it prints, the status it ends with
and the disk it leaves behind.  The status is 0 if the task was done.  A run that fails leaves all
files as they were, but folders made for a file of settings stay.
-/

namespace CodeOutline

open CommandLine (Invocation Task UsageError)

structure Outcome where
  status : Nat
  report : Report
  disk : Disk

def Session.perform (grammars : Grammars) (machine : Machine) (session : Session) :
    Task → Disk × Except Failure String
  | .list file saved =>
    OutlineAnswer.deliverResult machine session (session.outlineFile grammars machine file saved)
  | .folder dir excludes hidden =>
    OutlineAnswer.deliverResult machine session
      (session.outlineFolder grammars machine dir excludes hidden)
  | .kinds => (machine.disk, .ok (kindsText session.format))
  | .configInit global force => session.initSettings machine (.ofFlag global) force
  | .configShow global => (machine.disk, session.showSettings machine global)
  | .configPath global => (machine.disk, .ok (session.showSettingsPath machine (.ofFlag global)))

def Outcome.ofFailure (disk : Disk) (answers errors : Format) (failure : Failure) : Outcome :=
  ⟨failure.status, failure.report answers errors, disk⟩

/-- Runs the program for an invocation.  Before there is a session, only the format for errors is
    known. -/
def CommandLine.Invocation.run (grammars : Grammars) (machine : Machine) (invocation : Invocation) :
    Outcome :=
  let errors := Session.errorFormat machine invocation.format
  match Session.start machine machine.herePath invocation.format invocation.output with
  | .error error => .ofFailure machine.disk errors errors (.startup error)
  | .ok session =>
    match session.perform grammars machine invocation.task with
    | (disk, .error failure) => .ofFailure disk session.format errors failure
    | (disk, .ok out) => ⟨0, { out }, disk⟩

def CommandLine.UsageError.status : UsageError → Nat
  | helpWanted => 0
  | versionWanted => 0
  | _ => 2

def run (grammars : Grammars) (machine : Machine) (words : List String) :
    Except UsageError Outcome :=
  (CommandLine.parse words).map fun invocation => invocation.run grammars machine

end CodeOutline
