import CodeOutline.Json.Writer
import CodeOutline.Output.Format

/-! # Reports

How answers, warnings and errors are written in each format.  As JSON they are documents with a
mark of success; keys are in ascending order.  As text an answer is a list of keys with their
values, and warnings and errors go to the error stream with a word before them.
-/

namespace CodeOutline

structure Report where
  out : String := ""
  err : String := ""
deriving DecidableEq, Repr

namespace Report

def document (json : Json) : String :=
  json.pretty ++ "\n"

def envelope (data : Json) : Json :=
  .object [("data", data), ("success", .bool true)]

/-! ## Text -/

/-- A value on one line: strings as they are, everything else as JSON. -/
def scalar : Json → String
  | .string text => text
  | json => json.compact

def isObject : Json → Bool
  | .object _ => true
  | _ => false

mutual

def lines (level : Nat) : Json → String
  | .object members => memberLines level members
  | json => Json.indent level ++ scalar json ++ "\n"

/-- Members as lines of text; objects inside are indented below their key. -/
def memberLines (level : Nat) : List (String × Json) → String
  | [] => ""
  | (key, value) :: rest =>
    (if isObject value then Json.indent level ++ key ++ ":\n" ++ lines (level + 1) value
      else Json.indent level ++ key ++ ": " ++ scalar value ++ "\n") ++ memberLines level rest

end

/-! ## Reports -/

def answer (format : Format) (data : Json) : String :=
  match format with
  | .json => document (envelope data)
  | .text => lines 0 data

def warning (format : Format) (message : String) : Report :=
  match format with
  | .json => { out := document (.object [("success", .bool false), ("warning", .string message)]) }
  | .text => { err := "warning: " ++ message ++ "\n" }

def error (format : Format) (message : String) : Report :=
  match format with
  | .json => { out := document (.object [("error", .string message), ("success", .bool false)]) }
  | .text => { err := "error: " ++ message ++ "\n" }

end Report

end CodeOutline
