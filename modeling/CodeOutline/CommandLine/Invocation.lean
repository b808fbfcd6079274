import CodeOutline.CommandLine.Reader

/-! # Invocations

The commands of the program and what a command line asks of them.  The options for the format,
the destination and the amount of output may be given to any command, also above the one they are
meant for; the lowest one counts.
-/

namespace CodeOutline.CommandLine

/-! ## The commands -/

def commonOptions : List Parameter :=
  [{ name := "format" },
   { name := "output", letter := some 'o', allowsEmpty := false },
   { name := "verbose", letter := some 'v', takesValue := false }]

def flagOption (name : String) (letter : Option Char) : Parameter :=
  { name, letter, takesValue := false }

def simpleCommand (name : String) (options : List Parameter) (word : Option Parameter) : Command :=
  { name, options := options ++ commonOptions, word, commands := [] }

def groupCommand (name : String) (commands : List Command) : Command :=
  { name, options := commonOptions, word := none, commands }

def program : Command :=
  groupCommand "symlist"
    [simpleCommand "list" [{ name := "symbols" }] (some { name := "file", allowsEmpty := false }),
     simpleCommand "folder"
       [{ name := "exclude", letter := some 'e', repeats := true }, flagOption "hidden" none]
       (some { name := "dir", allowsEmpty := false }),
     simpleCommand "kinds" [] none,
     groupCommand "config"
       [simpleCommand "init" [flagOption "global" none, flagOption "force" (some 'f')] none,
        simpleCommand "show" [flagOption "global" none] none,
        simpleCommand "path" [flagOption "global" none] none]]

/-! ## What is asked -/

inductive Task where
  | list (file : String) (symbols : Option String)
  | folder (dir : String) (excludes : List String) (hidden : Bool)
  | kinds
  | configInit (global force : Bool)
  | configShow (global : Bool)
  | configPath (global : Bool)
deriving DecidableEq, Repr

structure Invocation where
  task : Task
  format : Option String := none
  output : Option String := none
  verbose : Bool := false
deriving DecidableEq, Repr

def values (found : Found) (name : String) : List String :=
  (found.lookup name).getD []

def value? (found : Found) (name : String) : Option String :=
  (values found name).head?

def given (found : Found) (name : String) : Bool :=
  (found.lookup name).isSome

/-- The task of the commands that were named, with what was found for the lowest. -/
def task? (names : List String) (found : Found) : Option Task :=
  match names with
  | ["list"] => some (.list ((value? found "file").getD "") (value? found "symbols"))
  | ["folder"] =>
    some (.folder ((value? found "dir").getD "") (values found "exclude") (given found "hidden"))
  | ["kinds"] => some .kinds
  | ["config", "init"] => some (.configInit (given found "global") (given found "force"))
  | ["config", "show"] => some (.configShow (given found "global"))
  | ["config", "path"] => some (.configPath (given found "global"))
  | _ => none

def parse (words : List String) : Except UsageError Invocation := do
  let commands ← readCommand 3 program words
  let common := fun name => commands.reverse.findSome? fun (_, found) => value? found name
  match task? (commands.drop 1 |>.map Prod.fst) ((commands.getLast?.map Prod.snd).getD []) with
  | none => .error .commandMissing
  | some task =>
    return {
      task
      format := common "format"
      output := common "output"
      verbose := commands.any fun (_, found) => given found "verbose" }

end CodeOutline.CommandLine
