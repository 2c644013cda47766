import GraphQL.Location

/-!
# `GraphQL/Document/Token.lean` — the tokens of a document

A text is cut into names, numbers, strings and punctuation, each with the place of its first
character. Blanks, byte order marks and comments stand between tokens and leave nothing behind. A
comma leaves a mark on the token after it: commas may stand between any two tokens, but where a
construct is told by its second token, that token has to follow the first without one. A text that
is not a sequence of tokens has none: there is no partial answer.
-/

set_option autoImplicit false

namespace GraphQL

/-- A token. Strings are as they are meant; numbers are as they are written. -/
inductive Token where
  | punctuator (c : Char)
  | spread
  | name (s : String)
  | int (text : String)
  | float (text : String)
  | string (s : String)
  deriving DecidableEq, Repr, Inhabited

/-- A token where it stands. -/
structure PlacedToken where
  token : Token
  /-- The place of its first character. -/
  location : Location
  /-- Whether a comma stands between the token and the one before it. -/
  afterComma : Bool
  deriving Repr, Inhabited

namespace Token

/-! ## 1. Classes of characters -/

/-- Whether a name can begin with a character. -/
def startsName (c : Char) : Bool :=
  ('a' ≤ c && c ≤ 'z') || ('A' ≤ c && c ≤ 'Z') || c = '_'

/-- Whether a character is an ASCII digit. -/
def isDigit (c : Char) : Bool :=
  '0' ≤ c && c ≤ '9'

/-- Whether a name can go on with a character. -/
def continuesName (c : Char) : Bool :=
  startsName c || isDigit c

/-- Whether a text is a name. -/
def isName (s : String) : Bool :=
  match s.toList with
  | [] => false
  | c :: rest => startsName c && rest.all continuesName

/-- Whether a character may stand anywhere between tokens and leaves nothing behind: space, tab,
line feed, carriage return, byte order mark. -/
def isIgnored (c : Char) : Bool :=
  c = ' ' || c = '\t' || c = '\n' || c = '\r' || c = '\ufeff'

/-- Whether a character is a token by itself. -/
def isPunctuator (c : Char) : Bool :=
  c = '!' || c = '$' || c = '&' || c = '(' || c = ')' || c = ':' || c = '=' || c = '@' ||
    c = '[' || c = ']' || c = '\x7b' || c = '|' || c = '\x7d'

/-! ## 2. Numbers -/

/-- The text of an integer part: an optional minus, and digits of which the first is not zero unless
it is alone. -/
def takeInteger? (cs : List Char) : Option (List Char × List Char) :=
  let (sign, rest) := match cs with
    | '-' :: rest => (['-'], rest)
    | _ => ([], cs)
  match rest.takeWhile isDigit with
  | [] => none
  | '0' :: _ :: _ => none
  | digits => some (sign ++ digits, rest.dropWhile isDigit)

/-- The text of a fraction, if there is a point. -/
def takeFraction? : List Char → Option (List Char × List Char)
  | '.' :: rest =>
    match rest.takeWhile isDigit with
    | [] => none
    | digits => some ('.' :: digits, rest.dropWhile isDigit)
  | cs => some ([], cs)

/-- The text of an exponent, if there is a mark. -/
def takeExponent? : List Char → Option (List Char × List Char)
  | mark :: rest =>
    if mark = 'e' ∨ mark = 'E' then
      let (sign, rest) := match rest with
        | '+' :: rest => (['+'], rest)
        | '-' :: rest => (['-'], rest)
        | _ => ([], rest)
      match rest.takeWhile isDigit with
      | [] => none
      | digits => some (mark :: sign ++ digits, rest.dropWhile isDigit)
    else some ([], mark :: rest)
  | [] => some ([], [])

/-- A number, which neither a digit, a point nor a letter may follow, and the text after it. -/
def takeNumber? (cs : List Char) : Option (Token × List Char) := do
  let (whole, rest) ← takeInteger? cs
  let (fraction, rest) ← takeFraction? rest
  let (exponent, rest) ← takeExponent? rest
  match rest with
  | c :: _ => if continuesName c ∨ c = '.' then none else some ()
  | [] => some ()
  let text := String.ofList (whole ++ fraction ++ exponent)
  some (if fraction.isEmpty && exponent.isEmpty then .int text else .float text, rest)

/-! ## 3. Strings -/

/-- The value of a hexadecimal digit. -/
def hexValue? (c : Char) : Option Nat :=
  if '0' ≤ c ∧ c ≤ '9' then some (c.toNat - '0'.toNat)
  else if 'a' ≤ c ∧ c ≤ 'f' then some (c.toNat - 'a'.toNat + 10)
  else if 'A' ≤ c ∧ c ≤ 'F' then some (c.toNat - 'A'.toNat + 10)
  else none

/-- The number written by hexadecimal digits. -/
def hexNumber? (digits : List Char) : Option Nat :=
  digits.foldlM (fun value c => (hexValue? c).map (value * 16 + ·)) 0

/-- The character with a code point, if there is one. -/
def character? (code : Nat) : Option Char :=
  if h : code.isValidChar then some (Char.ofNatAux code h) else none

/-- The character meant after the backslash and `u`, and the text after the escape: digits in
braces, or four digits, or two times four for the halves of a surrogate pair. -/
def takeUnicode? : List Char → Option (Char × List Char)
  | '\x7b' :: rest => do
    let digits := rest.takeWhile (· ≠ '\x7d')
    if digits.isEmpty then none
    else match rest.dropWhile (· ≠ '\x7d') with
      | _ :: rest => do
        let code ← hexNumber? digits
        let c ← character? code
        some (c, rest)
      | [] => none
  | a :: b :: c :: d :: rest => do
    let high ← hexNumber? [a, b, c, d]
    if 0xD800 ≤ high ∧ high < 0xDC00 then
      match rest with
      | '\\' :: 'u' :: a :: b :: c :: d :: rest => do
        let low ← hexNumber? [a, b, c, d]
        if 0xDC00 ≤ low ∧ low < 0xE000 then
          let c ← character? (0x10000 + (high - 0xD800) * 0x400 + (low - 0xDC00))
          some (c, rest)
        else none
      | _ => none
    else do
      let c ← character? high
      some (c, rest)
  | _ => none

/-- The character that a letter after a backslash means. -/
def simpleEscape? : Char → Option Char
  | '"' => some '"'
  | '\\' => some '\\'
  | '/' => some '/'
  | 'b' => some '\x08'
  | 'f' => some '\x0c'
  | 'n' => some '\n'
  | 'r' => some '\r'
  | 't' => some '\t'
  | _ => none

/-- The inside of a quoted string up to its closing quote, without the end of a line, and the text
after the quote. -/
def takeOnLine? : Nat → List Char → Option (List Char × List Char)
  | 0, _ => none
  | fuel + 1, cs =>
    match cs with
    | [] => none
    | '"' :: rest => some ([], rest)
    | '\\' :: 'u' :: rest => do
      let (c, rest) ← takeUnicode? rest
      let (inside, rest) ← takeOnLine? fuel rest
      some (c :: inside, rest)
    | '\\' :: e :: rest => do
      let c ← simpleEscape? e
      let (inside, rest) ← takeOnLine? fuel rest
      some (c :: inside, rest)
    | c :: rest =>
      if c = '\n' ∨ c = '\r' ∨ c = '\\' then none
      else do
        let (inside, rest) ← takeOnLine? fuel rest
        some (c :: inside, rest)

/-- The inside of a quoted string after its opening quote, and the text after the closing one. A
line may end right after the opening quote and nowhere else. -/
def takeQuoted? (cs : List Char) : Option (List Char × List Char) :=
  match cs with
  | c :: rest =>
    if c = '\n' ∨ c = '\r' then
      (takeOnLine? cs.length rest).map fun (inside, rest) => (c :: inside, rest)
    else takeOnLine? (cs.length + 1) cs
  | [] => none

/-- The inside of a block string up to its three closing quotes, and the text after them. -/
def takeBlock? : List Char → Option (List Char × List Char)
  | '"' :: '"' :: '"' :: rest => some ([], rest)
  | '\\' :: '"' :: '"' :: '"' :: rest => do
    let (inside, rest) ← takeBlock? rest
    some ('"' :: '"' :: '"' :: inside, rest)
  | c :: rest => do
    let (inside, rest) ← takeBlock? rest
    some (c :: inside, rest)
  | [] => none

/-- The lines of a text, which end at a line feed, a carriage return or the two together. -/
def lines : List Char → List (List Char)
  | [] => [[]]
  | '\r' :: '\n' :: rest => [] :: lines rest
  | c :: rest =>
    if c = '\n' ∨ c = '\r' then [] :: lines rest
    else match lines rest with
      | [] => [[c]]
      | line :: more => (c :: line) :: more

/-- Whether a character indents a line of a block string. -/
def isIndent (c : Char) : Bool :=
  c = ' ' || c = '\t'

/-- The least indentation of the lines that hold more than indentation. -/
def commonIndent (lines : List (List Char)) : Nat :=
  let indents := (lines.filter (!·.all isIndent)).map fun line => (line.takeWhile isIndent).length
  indents.min?.getD 0

/-- What a block string means: the indentation common to all lines but the first is taken off them,
and blank lines at both ends are dropped. -/
def blockValue (inside : List Char) : List Char :=
  let all := lines inside
  let indent := commonIndent all.tail
  let cut := all.take 1 ++ all.tail.map (·.drop indent)
  let isBlank (line : List Char) : Bool := line.all isIndent
  let kept := ((cut.dropWhile isBlank).reverse.dropWhile isBlank).reverse
  ['\n'].intercalate kept

/-! ## 4. Texts -/

/-- The token at the beginning of a text, and the text after it. -/
def take? (cs : List Char) : Option (Token × List Char) :=
  match cs with
  | [] => none
  | '.' :: '.' :: '.' :: rest => some (.spread, rest)
  | '"' :: '"' :: '"' :: rest =>
    (takeBlock? rest).map fun (inside, rest) => (.string (String.ofList (blockValue inside)), rest)
  | '"' :: rest =>
    (takeQuoted? rest).map fun (inside, rest) => (.string (String.ofList inside), rest)
  | c :: rest =>
    if startsName c then
      some (.name (String.ofList (c :: rest.takeWhile continuesName)), rest.dropWhile continuesName)
    else if isPunctuator c then some (.punctuator c, rest)
    else if isDigit c || c = '-' then takeNumber? cs
    else none

/-- Drops a comment, which ends with its line. -/
def skipComment (cs : List Char) : List Char :=
  cs.dropWhile fun c => c ≠ '\n' ∧ c ≠ '\r'

/-- The tokens of a text whose characters have the given places, where it is known whether a comma
stands before the text. Every call takes at least one character. -/
def ofPlaced? : Nat → Bool → List Char → List Location → Option (List PlacedToken)
  | fuel + 1, afterComma, c :: rest, location :: places =>
    let onward (after : List Char) := places.drop (rest.length - after.length)
    if c = ',' then ofPlaced? fuel true rest places
    else if isIgnored c then ofPlaced? fuel afterComma rest places
    else if c = '#' then
      let after := skipComment rest
      ofPlaced? fuel afterComma after (onward after)
    else do
      let (token, after) ← take? (c :: rest)
      let tokens ← ofPlaced? fuel false after (onward after)
      some ({ token, location, afterComma } :: tokens)
  | _, _, _, _ => some []

/-- The tokens of a text. -/
def ofText? (source : String) : Option (List PlacedToken) :=
  let cs := source.toList
  ofPlaced? cs.length false cs (Location.start.places cs)

end Token

end GraphQL
