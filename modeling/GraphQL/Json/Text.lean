import GraphQL.Binary64.Shortest
import GraphQL.Json

/-!
# `GraphQL/Json/Text.lean` — writing JSON

The compact text of a value: no blanks, members in order, and in strings an escape only for the
quote, the backslash and the control characters, of which five have a letter of their own.
-/

set_option autoImplicit false

namespace GraphQL.Json

/-- A hexadecimal digit, in lower case. -/
def hexDigit (n : Nat) : Char :=
  Nat.digitChar n

/-- How a character is written between quotes. -/
def escape (c : Char) : List Char :=
  match c with
  | '"' => ['\\', '"']
  | '\\' => ['\\', '\\']
  | '\x08' => ['\\', 'b']
  | '\t' => ['\\', 't']
  | '\n' => ['\\', 'n']
  | '\x0c' => ['\\', 'f']
  | '\r' => ['\\', 'r']
  | c =>
    if c.toNat < 32 then
      ['\\', 'u', '0', '0', hexDigit (c.toNat / 16), hexDigit (c.toNat % 16)]
    else [c]

example : escape '\x1f' = "\\u001f".toList := by decide
example : escape '\x7f' = ['\x7f'] := by decide

/-- A string between quotes. -/
def quote (s : String) : String :=
  String.ofList ('"' :: s.toList.flatMap escape ++ ['"'])

/-- The text of a number. -/
def Number.text : Number → String
  | .integer n => toString n
  | .float x => Binary64.jsonLayout.text x.val

/-- Texts between two brackets, with commas between them. -/
def bracket (opening : String) (items : List String) (closing : String) : String :=
  opening ++ String.intercalate "," items ++ closing

mutual

/-- The compact text of a value. -/
def text : Json → String
  | .null => "null"
  | .boolean b => if b then "true" else "false"
  | .number n => n.text
  | .string s => quote s
  | .array items => bracket "[" (itemTexts items) "]"
  | .object members => bracket "\x7b" (memberTexts members) "\x7d"

/-- The texts of the items of an array. -/
def itemTexts : List Json → List String
  | [] => []
  | item :: rest => text item :: itemTexts rest

/-- The texts of the members of an object. -/
def memberTexts : List (String × Json) → List String
  | [] => []
  | (key, value) :: rest => (quote key ++ ":" ++ text value) :: memberTexts rest

end

end GraphQL.Json
