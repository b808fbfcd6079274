import CodeOutline.Outline.Render
import CodeOutline.Output.Report
import CodeOutline.Provider
import CodeOutline.Settings.Store

/-! # Failures

Why a run of the program fails.  That there is nothing to work on is a matter of its own: it is
only warned about, and the run ends with the status 1 instead of 2.
-/

namespace CodeOutline

inductive Failure where
  /-- There is nothing to work on. -/
  | missing (message : String)
  | startup (error : SettingsError)
  | settings (error : SettingsError)
  | inaccessible (fault : Disk.Fault)
  | provider (error : ProviderError)
  | render (error : RenderError)

namespace Failure

def isMissing : Failure → Bool
  | missing _ => true
  | _ => false

/-- What is said about a failure.  A saved answer that cannot be decoded is named together with
    its fault, which its own message names already. -/
def message : Failure → String
  | missing message => message
  | startup error => "Failed to initialize: " ++ error.message
  | settings error => error.message
  | inaccessible fault => fault.message
  | provider (.undecodable fault) =>
    ProviderError.message (.undecodable fault) ++ ": " ++ fault.message
  | provider error => error.message
  | render error => error.message

def status (failure : Failure) : Nat :=
  if failure.isMissing then 1 else 2

def report (answers errors : Format) (failure : Failure) : Report :=
  if failure.isMissing then Report.warning answers failure.message
  else Report.error errors failure.message

end Failure

end CodeOutline
