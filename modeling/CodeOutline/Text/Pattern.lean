/-! # Patterns with preferred matches

A pattern describes texts, and matching it at the start of a text can succeed in several
ways that differ in how much they take.  The ways are ordered by preference: of two
alternatives the first is preferred, and a repetition prefers to go on.  `Pattern.ends`
lists what is left of the text after each way, the preferred one first.

`Matches` says which ways there are without their order, and is what statements about
patterns are proved from.
-/

namespace CodeOutline.Text

inductive Pattern where
  | empty
  | one (class? : Char → Bool)
  /-- Takes any number of characters of a class, and prefers to take more. -/
  | run (class? : Char → Bool)
  /-- Takes all characters of a class up to the first that is not in it. -/
  | span (class? : Char → Bool)
  | exactly (chars : List Char)
  | seq (first second : Pattern)
  /-- Takes what either takes, and prefers the first. -/
  | either (first second : Pattern)
  /-- Takes what the pattern takes any number of times, and prefers to go on.  The pattern
      has to take at least one character each time. -/
  | many (item : Pattern)

namespace Pattern

def dropFront : List Char → List Char → Option (List Char)
  | [], text => some text
  | _ :: _, [] => none
  | a :: front, c :: text => if a = c then dropFront front text else none

/-- The ends of a run of characters of a class, the longest run first, followed by `later`. -/
def runEnds (p : Char → Bool) (later : List (List Char)) : List Char → List (List Char)
  | [] => [] :: later
  | c :: rest =>
    if p c then runEnds p ((c :: rest) :: later) rest else (c :: rest) :: later

/-- The ends of a repetition of `step`, which is taken up to `n` times. -/
def manyEnds (step : List Char → List (List Char)) : Nat → List Char → List (List Char)
  | 0, text => [text]
  | n + 1, text => (step text).flatMap (manyEnds step n) ++ [text]

/-- What is left of a text after each way to match the pattern at its start, in order of
    preference. -/
def ends : Pattern → List Char → List (List Char)
  | empty, text => [text]
  | one _, [] => []
  | one p, c :: rest => if p c then [rest] else []
  | run p, text => runEnds p [] text
  | span p, text => [text.dropWhile p]
  | exactly chars, text => (dropFront chars text).toList
  | seq a b, text => (ends a text).flatMap fun rest => ends b rest
  | either a b, text => ends a text ++ ends b text
  | many a, text => manyEnds (fun rest => ends a rest) text.length text

/-- What the second of three patterns takes in the preferred match of all three, one after the other, at
    the start of a text. -/
def capture (before taken after : Pattern) (text : List Char) : Option (List Char) :=
  (before.ends text).findSome? fun start =>
    (taken.ends start).findSome? fun rest =>
      if (after.ends rest).isEmpty then none else some (start.take (start.length - rest.length))

def span1 (class? : Char → Bool) : Pattern :=
  seq (one class?) (span class?)

def optional (item : Pattern) : Pattern :=
  either item empty

def inOrder : List Pattern → Pattern
  | [] => empty
  | p :: ps => seq p (inOrder ps)

def char (c : Char) : Pattern :=
  one fun d => d == c

end Pattern

/-- `Matches p text rest`: one way to match `p` at the start of `text` leaves `rest`. -/
inductive Pattern.Matches : Pattern → List Char → List Char → Prop where
  | empty {text} : Matches .empty text text
  | one {p c rest} : p c = true → Matches (.one p) (c :: rest) rest
  | run {p front rest} : (∀ c ∈ front, p c = true) → Matches (.run p) (front ++ rest) rest
  | span {p front rest} :
      (∀ c ∈ front, p c = true) → (∀ c ∈ rest.head?, p c = false) →
        Matches (.span p) (front ++ rest) rest
  | exactly {chars rest} : Matches (.exactly chars) (chars ++ rest) rest
  | seq {a b text mid rest} :
      Matches a text mid → Matches b mid rest → Matches (.seq a b) text rest
  | eitherLeft {a b text rest} : Matches a text rest → Matches (.either a b) text rest
  | eitherRight {a b text rest} : Matches b text rest → Matches (.either a b) text rest
  | manyStop {a text} : Matches (.many a) text text
  | manyStep {a text mid rest} :
      Matches a text mid → Matches (.many a) mid rest → Matches (.many a) text rest

end CodeOutline.Text
