/-! # Reading command lines

The arguments of a program are read from left to right.  A word that starts with one dash is a
group of one-letter options, a word that starts with two is an option by its name, and after two
dashes alone every word stands for itself.  The first word that is neither an option nor the
value of one can name a command below the one at hand, which then reads the rest with options of
its own.

The value of an option, or a word that stands for itself, is only looked at when the next option
or word comes or the line ends.  So of two mistakes it is not always the first that is reported,
and a mistake in the words of a lower command comes before one that is still to be looked at
above it.
-/

namespace CodeOutline.CommandLine

/-! ## Commands -/

/-- What is wrong with a command line, or what it asks for instead of a run. -/
inductive UsageError where
  | helpWanted
  | versionWanted
  | nothingGiven
  | commandMissing
  | commandUnknown
  /-- There is no such option, or there is a word too many. -/
  | argumentUnknown
  | argumentMissing
  | argumentRepeated
  /-- The value of an option is missing or empty. -/
  | valueInvalid
  | valueUnexpected
deriving DecidableEq, Repr

structure Parameter where
  name : String
  letter : Option Char := none
  takesValue : Bool := true
  allowsEmpty : Bool := true
  repeats : Bool := false

structure Command where
  name : String
  options : List Parameter
  /-- The word that stands for itself, if the command needs one. -/
  word : Option Parameter
  commands : List Command

namespace Command

def find? (command : Command) (name : String) : Option Command :=
  command.commands.find? fun inner => inner.name == name

/-- Whether a name asks for help on the commands below a command. -/
def isHelp (command : Command) (name : String) : Bool :=
  name == "help" && !command.commands.isEmpty

end Command

/-! ## What has been read -/

abbrev Found := List (String × List String)

structure Progress where
  found : Found := []
  pending : Option (Parameter × List String) := none

namespace Progress

def awaitsValue (progress : Progress) : Bool :=
  match progress.pending with
  | some (_, []) => true
  | _ => false

def take (found : Found) (parameter : Parameter) (values : List String) : Except UsageError Found :=
  let before := (found.lookup parameter.name).getD []
  if parameter.takesValue && values.isEmpty then .error .valueInvalid
  else if !parameter.repeats && (found.lookup parameter.name).isSome then .error .argumentRepeated
  else if !parameter.allowsEmpty && values.contains "" then .error .valueInvalid
  else .ok ((parameter.name, before ++ values) :: found.filter (·.1 ≠ parameter.name))

def settle (progress : Progress) : Except UsageError Progress :=
  match progress.pending with
  | none => .ok progress
  | some (parameter, values) => do
    return { found := ← take progress.found parameter values }

def accept (progress : Progress) (parameter : Parameter) (values : List String) :
    Except UsageError Progress := do
  let progress ← progress.settle
  return { found := ← take progress.found parameter values }

def await (progress : Progress) (parameter : Parameter) (values : List String) :
    Except UsageError Progress := do
  let progress ← progress.settle
  return { progress with pending := some (parameter, values) }

def stop (progress : Progress) (reason : UsageError) : Except UsageError Progress := do
  let _ ← progress.settle
  .error reason

end Progress

/-! ## Options -/

def readNamed (command : Command) (progress : Progress) (name : String) (value : Option String) :
    Except UsageError Progress :=
  match command.options.find? fun option => option.name == name with
  | some option =>
    match option.takesValue, value with
    | true, some value => progress.accept option [value]
    | true, none => progress.await option []
    | false, some _ => .error .valueUnexpected
    | false, none => progress.accept option []
  | none =>
    if name == "help" || name == "version" then
      if value.isSome then .error .valueUnexpected
      else progress.stop (if name == "help" then .helpWanted else .versionWanted)
    else .error .argumentUnknown

def attachedValue : List Char → Option String
  | [] => none
  | '=' :: rest => some (String.ofList rest)
  | rest => some (String.ofList rest)

def readLetters (command : Command) (progress : Progress) : List Char → Except UsageError Progress
  | [] => .ok progress
  | c :: rest =>
    match command.options.find? fun option => option.letter == some c with
    | some option =>
      if option.takesValue then
        match attachedValue rest with
        | some value => progress.accept option [value]
        | none => progress.await option []
      else do
        let progress ← progress.accept option []
        readLetters command progress rest
    | none =>
      if c = 'h' then progress.stop .helpWanted
      else if c = 'V' then progress.stop .versionWanted
      else .error .argumentUnknown

/-! ## Words -/

/-- Reads a word that stands for itself; `trailing` tells that two dashes came before it. -/
def readWord (command : Command) (progress : Progress) (trailing : Bool) (text : String) :
    Except UsageError Progress :=
  match command.word with
  | some parameter =>
    if (progress.found.lookup parameter.name).isSome
        || progress.pending.any (fun (pending, _) => pending.name == parameter.name) then
      .error .argumentUnknown
    else progress.await parameter [text]
  | none =>
    if command.commands.isEmpty then .error .argumentUnknown
    else if trailing && ((command.find? text).isSome || command.isHelp text) then
      .error .argumentUnknown
    else .error .commandUnknown

/-- What asking for help on commands leads to: every word has to name a command below the one
    before it. -/
def helpOn (command : Command) : List String → UsageError
  | [] => .helpWanted
  | name :: rest =>
    match command.find? name with
    | some inner => helpOn inner rest
    | none => if command.isHelp name && rest.isEmpty then .helpWanted else .commandUnknown

def splitEquals (text : List Char) : String × Option String :=
  match text.dropWhile (· ≠ '=') with
  | [] => (String.ofList text, none)
  | _ :: value => (String.ofList (text.takeWhile (· ≠ '=')), some (String.ofList value))

/-- Reads one word in front of which no two dashes stand. -/
def readArgument (command : Command) (progress : Progress) (text : String) :
    Except UsageError Progress :=
  match text.toList with
  | '-' :: '-' :: rest =>
    let (name, value) := splitEquals rest
    readNamed command progress name value
  | '-' :: c :: rest => readLetters command progress (c :: rest)
  | _ =>
    match progress.pending with
    | some (parameter, []) => .ok { progress with pending := some (parameter, [text]) }
    | _ => readWord command progress false text

/-- Reads the words of one command, up to the name of a command below it, which is given with the
    words behind it. -/
def readArguments (command : Command) :
    Bool → Progress → List String → Except UsageError (Progress × Option (Command × List String))
  | _, progress, [] => .ok (progress, none)
  | true, progress, text :: rest => do
    readArguments command true (← readWord command progress true text) rest
  | false, progress, text :: rest =>
    if !progress.awaitsValue && command.isHelp text then .error (helpOn command rest)
    else
      match if progress.awaitsValue then none else command.find? text with
      | some inner => .ok (progress, some (inner, rest))
      | none =>
        if text = "--" then readArguments command true progress rest
        else do readArguments command false (← readArgument command progress text) rest

/-! ## Whole lines -/

def conclude (command : Command) (progress : Progress) (goesOn : Bool) : Except UsageError Found := do
  let progress ← progress.settle
  if !goesOn && !command.commands.isEmpty then
    .error (if progress.found.isEmpty then .nothingGiven else .commandMissing)
  else
    match command.word with
    | some parameter =>
      if (progress.found.lookup parameter.name).isSome then .ok progress.found
      else .error .argumentMissing
    | none => .ok progress.found

/-- Reads the words of a command and the commands below it, down to the given depth: the names of
    the commands with what is found for each, the lowest last. -/
def readCommand : Nat → Command → List String → Except UsageError (List (String × Found))
  | 0, _, _ => .error .commandUnknown
  | depth + 1, command, words => do
    let (progress, next) ← readArguments command false {} words
    match next with
    | none => return [(command.name, ← conclude command progress false)]
    | some (inner, rest) =>
      let lower ← readCommand depth inner rest
      return (command.name, ← conclude command progress true) :: lower

end CodeOutline.CommandLine
