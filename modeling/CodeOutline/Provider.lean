import CodeOutline.Disk.Access
import CodeOutline.SyntaxTree.Symbols
import CodeOutline.Wire.Decode

/-! # Symbol providers

A provider gives the symbols of a file from its path and its text, or nothing if the file is
none of its business.  One provider takes them from the syntax tree of the text; another
ignores the file and replays the saved answer of a language server.

The grammars that turn a text into a syntax tree are not part of this library: they are a
parameter.
-/

namespace CodeOutline

/-- The syntax tree of a text in a language. -/
abbrev Grammars := Language → String → Node

inductive ProviderError where
  | unsupported (language : Language)
  | unreadable (fault : Disk.Fault)
  | undecodable (fault : Json.Fault)
deriving DecidableEq, Repr

def Json.Fault.message : Json.Fault → String
  | endOfText => "the text ends within a value"
  | malformed => "the text is not JSON"
  | mismatch => "data did not match any variant of untagged enum DocumentSymbolResponse"

def ProviderError.message : ProviderError → String
  | unsupported language => "No symbol provider for " ++ language.title
  | unreadable fault => fault.message
  | undecodable fault => "Invalid document symbols: " ++ fault.message

abbrev Provider := String → String → Except ProviderError (Option (List Symbol))

namespace Provider

/-! ## Syntax trees -/

def extract (grammars : Grammars) (language : Language) (text : String) :
    Except ProviderError (List Symbol) :=
  if language = .unknown then .error (.unsupported language)
  else .ok ((grammars language text).symbols language text)

/-- Takes symbols from the syntax tree of a text, in the language its path tells. -/
def ofGrammars (grammars : Grammars) : Provider := fun path text =>
  if Language.ofPath path = .unknown then .ok none
  else (extract grammars (Language.ofPath path) text).map some

/-! ## Saved answers -/

inductive Source where
  | input
  | file (path : String)
deriving DecidableEq, Repr

/-- The source an argument names: a dash is the standard input. -/
def Source.ofArgument (argument : String) : Source :=
  if argument = "-" then .input else .file argument

def Source.read (disk : Disk) (here : Place) (input : ByteArray) : Source → Except Disk.Fault String
  | .input => Disk.decode input
  | .file path => disk.readText here path

def ofSaved (answer : Except Disk.Fault String) : Provider := fun _ _ =>
  match answer with
  | .error fault => .error (.unreadable fault)
  | .ok text =>
    match Wire.decodeSymbols text with
    | .error fault => .error (.undecodable fault)
    | .ok symbols => .ok (some symbols)

end Provider

end CodeOutline
