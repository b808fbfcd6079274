import CodeOutline.Json.Quoted

/-! # Writing JSON

Documents are written in two ways: without any blanks, or spread over lines with two spaces
for each level of nesting.  Empty arrays and objects take no line of their own.
-/

namespace CodeOutline.Json

/-! ## Compact -/

mutual

def compact : Json → String
  | null => "null"
  | bool true => "true"
  | bool false => "false"
  | natural n => toString n
  | decimal text => text
  | string text => quoted text
  | array items => "[" ++ compactItems items ++ "]"
  | object members => "\x7b" ++ compactMembers members ++ "\x7d"

def compactItems : List Json → String
  | [] => ""
  | [item] => compact item
  | item :: rest => compact item ++ "," ++ compactItems rest

def compactMembers : List (String × Json) → String
  | [] => ""
  | [(key, value)] => quoted key ++ ":" ++ compact value
  | (key, value) :: rest => quoted key ++ ":" ++ compact value ++ "," ++ compactMembers rest

end

/-! ## Over several lines -/

def indent (level : Nat) : String :=
  String.ofList (List.replicate (2 * level) ' ')

mutual

/-- A document over several lines; its first line is not indented. -/
def prettyAt (level : Nat) : Json → String
  | array [] => "[]"
  | array items => "[\n" ++ prettyItems (level + 1) items ++ "\n" ++ indent level ++ "]"
  | object [] => "\x7b\x7d"
  | object members =>
    "\x7b\n" ++ prettyMembers (level + 1) members ++ "\n" ++ indent level ++ "\x7d"
  | null => "null"
  | bool true => "true"
  | bool false => "false"
  | natural n => toString n
  | decimal text => text
  | string text => quoted text

def prettyItems (level : Nat) : List Json → String
  | [] => ""
  | [item] => indent level ++ prettyAt level item
  | item :: rest => indent level ++ prettyAt level item ++ ",\n" ++ prettyItems level rest

def prettyMembers (level : Nat) : List (String × Json) → String
  | [] => ""
  | [(key, value)] => indent level ++ quoted key ++ ": " ++ prettyAt level value
  | (key, value) :: rest =>
    indent level ++ quoted key ++ ": " ++ prettyAt level value ++ ",\n" ++ prettyMembers level rest

end

def pretty (json : Json) : String :=
  prettyAt 0 json

end CodeOutline.Json
