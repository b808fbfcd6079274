/-! # Kinds of symbols

The kinds are those of the language server protocol, where each has a code from 1 to 26.
A code outside that range is kept as `other`, so that every code can be read and written
back, but such a kind has no label and cannot be shown in an outline.
-/

namespace CodeOutline

inductive Kind where
  | file
  | moduleDecl
  | namespaceDecl
  | package
  | classDecl
  | method
  | property
  | field
  | constructor
  | enum
  | interface
  | function
  | variableDecl
  | constant
  | string
  | number
  | boolean
  | array
  | object
  | key
  | null
  | enumMember
  | struct
  | event
  | operator
  | typeParameter
  | other (code : Nat)
deriving DecidableEq, Repr, Inhabited

namespace Kind

def all : List Kind :=
  [file, moduleDecl, namespaceDecl, package, classDecl, method, property, field, constructor, enum,
   interface, function, variableDecl, constant, string, number, boolean, array, object, key,
   null, enumMember, struct, event, operator, typeParameter]

def ofCode (code : Nat) : Kind :=
  match code with
  | 0 => other 0
  | n + 1 => (all[n]?).getD (other (n + 1))

def code : Kind → Nat
  | file => 1
  | moduleDecl => 2
  | namespaceDecl => 3
  | package => 4
  | classDecl => 5
  | method => 6
  | property => 7
  | field => 8
  | constructor => 9
  | enum => 10
  | interface => 11
  | function => 12
  | variableDecl => 13
  | constant => 14
  | string => 15
  | number => 16
  | boolean => 17
  | array => 18
  | object => 19
  | key => 20
  | null => 21
  | enumMember => 22
  | struct => 23
  | event => 24
  | operator => 25
  | typeParameter => 26
  | other code => code

/-- The label of a kind in an outline; an undefined kind has none. -/
def label? : Kind → Option String
  | file => some "File"
  | moduleDecl => some "Module"
  | namespaceDecl => some "Namespace"
  | package => some "Package"
  | classDecl => some "Class"
  | method => some "Method"
  | property => some "Property"
  | field => some "Field"
  | constructor => some "Constructor"
  | enum => some "Enum"
  | interface => some "Interface"
  | function => some "Function"
  | variableDecl => some "Variable"
  | constant => some "Constant"
  | string => some "String"
  | number => some "Number"
  | boolean => some "Boolean"
  | array => some "Array"
  | object => some "Object"
  | key => some "Key"
  | null => some "Null"
  | enumMember => some "EnumMember"
  | struct => some "Struct"
  | event => some "Event"
  | operator => some "Operator"
  | typeParameter => some "TypeParameter"
  | other _ => none

def display (kind : Kind) : String :=
  match kind.label? with
  | some label => label
  | none => "kind#" ++ toString kind.code

/-- Functions and methods: the kinds whose line may end in a return type. -/
def isCallable : Kind → Bool
  | function | method => true
  | _ => false

/-- The kinds that make a function inside them a method. -/
def isContainer : Kind → Bool
  | classDecl | struct | interface | enum | object => true
  | _ => false

end Kind

end CodeOutline
