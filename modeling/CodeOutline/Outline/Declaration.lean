import CodeOutline.Text.Basic
import CodeOutline.Text.Pattern
import CodeOutline.Text.Word

/-! # What a declaration line says

An outline takes two things from the line a symbol is declared on: whether it is private
or public, and the return type of a function or method.  Neither is parsed; both are
guesses from the look of the line.

A return type is found by trying the shapes in `returnShapes` in order.  Each captures
the text of one type, and the first captured text that is not a modifier wins.
-/

namespace CodeOutline.Declaration

open Text (Pattern isBlank)

/-! ## Visibility -/

def visibility (line : String) : String :=
  if Text.hasWholeWord "private" line then "private "
  else if Text.hasWholeWord "public" line then "public "
  else ""

/-! ## Pieces of declaration shapes

Each piece takes all characters of its class that are there, where the shapes allow it to take fewer.  Both
come to the same (`Shape.captureHere_eq_backtracking`), as a piece that took fewer could not be followed by
what comes next in a shape.
-/

def isIdentStart (c : Char) : Bool :=
  c.isAlpha || c == '_'

def isIdentChar (c : Char) : Bool :=
  c.isAlphanum || c == '_'

def isTypeChar (c : Char) : Bool :=
  isIdentChar c || c == '<' || c == '>' || c == '?'

def blanks : Pattern :=
  .span isBlank

def blanks1 : Pattern :=
  .span1 isBlank

def identifier : Pattern :=
  .seq (.one isIdentStart) (.span isIdentChar)

/-- A type: a name with brackets and question marks, and further ones after commas. -/
def typeToken : Pattern :=
  .inOrder
    [.one isIdentStart, .span isTypeChar,
     .many (.inOrder [.char ',', blanks, .span1 isTypeChar])]

def parameters : Pattern :=
  .inOrder [.char '(', .span (fun c => c != ')'), .char ')']

def accessWord : Pattern :=
  .either (.exactly "public".toList)
    (.either (.exactly "private".toList) (.exactly "protected".toList))

/-! ## Shapes -/

/-- A look of a declaration line with a type in it: what stands before the type and what
    follows it.  An anchored shape has to begin where the line begins. -/
structure Shape where
  anchored : Bool
  before : Pattern
  after : Pattern

namespace Shape

def captureHere (shape : Shape) (text : List Char) : Option (List Char) :=
  Pattern.capture shape.before typeToken shape.after text

def captureAnywhere (shape : Shape) : List Char → Option (List Char)
  | [] => shape.captureHere []
  | c :: rest => (shape.captureHere (c :: rest)).or (captureAnywhere shape rest)

def capture (shape : Shape) (line : List Char) : Option (List Char) :=
  let found := if shape.anchored then shape.captureHere line else shape.captureAnywhere line
  (found.map Text.trim).filter fun type => !type.isEmpty

end Shape

/-- `Type name(` at the start of the line. -/
def leadingType : Shape :=
  ⟨true, blanks, .inOrder [blanks1, identifier, blanks, .char '(']⟩

/-- `Type name(...) async` at the start of the line. -/
def leadingTypeAsync : Shape :=
  ⟨true, blanks,
   .inOrder [blanks1, identifier, blanks, parameters, blanks1, .exactly "async".toList]⟩

/-- `name(...): Type` followed by a brace or a semicolon, anywhere. -/
def trailingType : Shape :=
  ⟨false, .inOrder [identifier, blanks, parameters, blanks, .char ':', blanks],
   .seq blanks (.one fun c => c == '\x7b' || c == ';')⟩

/-- `Type name(` after at most one of the access words. -/
def accessThenType : Shape :=
  ⟨true, .inOrder [blanks, .optional accessWord, blanks],
   .inOrder [blanks1, identifier, blanks, .char '(']⟩

def returnShapes : List Shape :=
  [leadingType, leadingTypeAsync, trailingType, accessThenType]

def modifiers : List String :=
  ["public", "private", "protected", "static", "final", "const", "async"]

def isAccepted (type : List Char) : Bool :=
  !modifiers.contains (Text.foldCase (String.ofList type))

def firstAccepted (shapes : List Shape) (line : List Char) : Option (List Char) :=
  (shapes.filterMap fun shape => shape.capture line).find? isAccepted

/-- The return type written on a declaration line, as far as its look tells. -/
def returnType? (line : String) : Option String :=
  (firstAccepted returnShapes line.toList).map String.ofList

end CodeOutline.Declaration
