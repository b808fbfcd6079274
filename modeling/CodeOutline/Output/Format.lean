import CodeOutline.Text.Basic

/-! # Output formats

Answers are printed as text or as JSON.  The case of the letters A to Z in the name of a
format does not matter.
-/

namespace CodeOutline

inductive Format where
  | text
  | json
deriving DecidableEq, Repr

namespace Format

def ofLower? (name : String) : Option Format :=
  if name = "text" || name = "plain" then some text
  else if name = "json" then some json
  else none

def ofName? (name : String) : Option Format :=
  ofLower? (Text.lowerAscii name)

def name : Format → String
  | text => "text"
  | json => "json"

def unknownNameMessage (name : String) : String :=
  "expected 'text' or 'json', got '" ++ Text.lowerAscii name ++ "'"

end Format

end CodeOutline
