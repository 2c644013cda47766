/-!
# `GraphQL/Location.lean` — places in a text

A place is a line and a column, both from 1. A column counts the bytes that the characters before it
on the line take in UTF-8. A line ends at a line feed, a carriage return or the two together, and
also at the other line ends of Unicode; where the line ends lie does not depend on what the text
means, so a line end inside a string or a comment counts as well.
-/

set_option autoImplicit false

namespace GraphQL

/-- A place in a text. -/
structure Location where
  line : Nat
  column : Nat
  deriving DecidableEq, Repr, Inhabited

namespace Location

/-- Where a text begins. -/
def start : Location := { line := 1, column := 1 }

/-- The characters that end a line: line feed, vertical tab, form feed, carriage return, next line,
line separator, paragraph separator. -/
def isLineEnd (c : Char) : Bool :=
  c = '\n' || c = '\x0b' || c = '\x0c' || c = '\r' || c = '\u0085' || c = '\u2028' || c = '\u2029'

/-- The place after a character, given the text that follows it. A carriage return before a line
feed leaves the end of the line to it. -/
def after (here : Location) (c : Char) (rest : List Char) : Location :=
  if isLineEnd c && !(c = '\r' && rest.head? = some '\n') then
    { line := here.line + 1, column := 1 }
  else { here with column := here.column + c.utf8Size }

/-- The places of the characters of a text. -/
def places (here : Location) : List Char → List Location
  | [] => []
  | c :: rest => here :: places (here.after c rest) rest

@[simp] theorem length_places (here : Location) (cs : List Char) :
    (places here cs).length = cs.length := by
  induction cs generalizing here with
  | nil => rfl
  | cons c rest ih => simp [places, ih]

end Location

end GraphQL
