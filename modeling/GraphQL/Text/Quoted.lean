import GraphQL.Text.Printable

/-!
# `GraphQL/Text/Quoted.lean` — texts in descriptions

A text inside a description stands between double quotes. The quote, the backslash and four control
characters have a letter after a backslash; a character that does not show by itself is written as
its code point in braces.
-/

set_option autoImplicit false

namespace GraphQL.Text

/-- How a character is written between quotes. -/
def describeChar (c : Char) : List Char :=
  match c with
  | '\x00' => ['\\', '0']
  | '\t' => ['\\', 't']
  | '\n' => ['\\', 'n']
  | '\r' => ['\\', 'r']
  | '"' => ['\\', '"']
  | '\\' => ['\\', '\\']
  | c =>
    if isPrintable c then [c]
    else ['\\', 'u', '\x7b'] ++ Nat.toDigits 16 c.toNat ++ ['\x7d']

example : describeChar '\x1b' = "\\u\x7b1b\x7d".toList := by decide +kernel
example : describeChar 'é' = ['é'] := by decide +kernel

/-- A text between quotes. -/
def quoted (s : String) : String :=
  String.ofList ('"' :: s.toList.flatMap describeChar ++ ['"'])

/-- Texts between two brackets, with commas and blanks between them. -/
def listing (opening : String) (items : List String) (closing : String) : String :=
  opening ++ String.intercalate ", " items ++ closing

end GraphQL.Text
