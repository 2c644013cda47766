import GraphQL.Binary64.Decimal
import GraphQL.Json

/-!
# `GraphQL/Json/Written.lean` — reading JSON

Reading is in two steps. `Written.read?` checks a text against the grammar and gives back what is
written, members with their repetitions. `Written.keep?` makes a value of that, and this is where it
counts that a number is too large or half of a surrogate pair stands alone, and where a repeated key
keeps its first place and its last entry. The steps are apart because a reader of a fixed shape (a
request, a response) has its own rules about repeated keys, and drops the members that it does not
know without asking more of them than the grammar does.
-/

set_option autoImplicit false

namespace GraphQL.Json

/-! ## 1. What is written -/

/-- A number as it is written. -/
structure Numeral where
  negative : Bool
  /-- The digits before the point. -/
  whole : List Nat
  /-- The digits after the point, if there is one. -/
  fraction : Option (List Nat)
  /-- The exponent, if there is one. -/
  exponent : Option Int
  deriving DecidableEq, Repr

/-- A value as it is written. A number is absent where it is too large for a binary64 number, and a
string where it has an escape for one half of a surrogate pair without the other. -/
inductive Written where
  | null
  | boolean (b : Bool)
  | number (n : Option Number)
  | string (s : Option String)
  | array (items : List Written)
  | object (members : List (Option String × Written))
  deriving Inhabited

/-! ## 2. Numbers

An integer of 64 bits, with or without a sign, is exact. For every other number the digits that fit
sixty-four bits are rounded to a binary64 number, which is then multiplied or divided by the nearest
binary64 number to a power of ten: two roundings, where the text has one. -/

/-- Digits gathered into sixty-four bits, and the power of ten that they are short of. -/
structure Gathered where
  significand : Nat
  exponent : Int

/-- Gathers the digits before the point; from the first that does not fit on, each digit only counts
as a power of ten. -/
def Gathered.whole (g : Gathered) : List Nat → Gathered
  | [] => g
  | d :: rest =>
    if g.significand * 10 + d < UInt64.size then
      whole { g with significand := g.significand * 10 + d } rest
    else { g with exponent := g.exponent + Int.ofNat (rest.length + 1) }

/-- Gathers the digits after the point; from the first that does not fit on, they are dropped. -/
def Gathered.fraction (g : Gathered) : List Nat → Gathered
  | [] => g
  | d :: rest =>
    if g.significand * 10 + d < UInt64.size then
      fraction { significand := g.significand * 10 + d, exponent := g.exponent - 1 } rest
    else g

/-- The number `x · 10 ^ exponent`, in steps of at most `10 ^ 308`; nothing where it is too large. A
positive number below `2 ^ 64` is zero after two steps down. -/
def scaled? (x : Float) (exponent : Int) : Nat → Option FiniteFloat
  | 0 => FiniteFloat.of? x
  | fuel + 1 =>
    if 0 ≤ exponent then
      if Binary64.decode x = .finite false 0 (-1074) then FiniteFloat.of? x
      else if exponent ≤ 308 then
        FiniteFloat.of? (Binary64.scale x (Binary64.ofDecimal false 1 exponent) false)
      else none
    else if -308 ≤ exponent then
      FiniteFloat.of? (Binary64.scale x (Binary64.ofDecimal false 1 (-exponent)) true)
    else
      scaled? (Binary64.scale x (Binary64.ofDecimal false 1 308) true) (exponent + 308) fuel

/-- The same number with a sign. -/
def FiniteFloat.signed? (negative : Bool) (x : FiniteFloat) : Option FiniteFloat :=
  match Binary64.decode x.val with
  | .finite _ significand exponent =>
    FiniteFloat.of? <|
      if 0 ≤ exponent then Binary64.nearest negative (significand <<< exponent.toNat) 1
      else Binary64.nearest negative significand (1 <<< (-exponent).toNat)
  | _ => none

/-- The value of a number, if it is not too large. Minus zero has no integer and is the
floating-point number of that name. -/
def Numeral.value? (n : Numeral) : Option Number :=
  let magnitude := n.whole.foldl (fun value d => value * 10 + d) 0
  match n.fraction, n.exponent with
  | none, none =>
    if n.negative then
      if magnitude = 0 then (FiniteFloat.of? (Binary64.nearest true 0 1)).map .float
      else if Int64.minValue.toInt ≤ -Int.ofNat magnitude then
        some (.integer (-Int.ofNat magnitude))
      else approximate? n
    else if magnitude < UInt64.size then some (.integer (Int.ofNat magnitude))
    else approximate? n
  | _, _ => approximate? n
where
  approximate? (n : Numeral) : Option Number :=
    let start : Gathered := { significand := 0, exponent := 0 }
    let gathered := (start.whole n.whole).fraction (n.fraction.getD [])
    let exponent := gathered.exponent + n.exponent.getD 0
    let magnitude := Binary64.ofInt (Int.ofNat gathered.significand)
    ((scaled? magnitude exponent 4).bind (FiniteFloat.signed? n.negative)).map .float

/-! ## 3. The value of what is written -/

mutual

/-- The value, if its numbers and strings have one. -/
def Written.keep? : Written → Option Json
  | .null => some .null
  | .boolean b => some (.boolean b)
  | .number n => n.map .number
  | .string s => s.map .string
  | .array items => (keepItems? items).map .array
  | .object members => (keepMembers? members).map fun pairs => .object (Entries.ofList pairs)

/-- The values of the items of an array. -/
def Written.keepItems? : List Written → Option (List Json)
  | [] => some []
  | item :: rest => do
    let value ← keep? item
    let values ← keepItems? rest
    some (value :: values)

/-- The values of the members of an object, repetitions included. -/
def Written.keepMembers? : List (Option String × Written) → Option (List (String × Json))
  | [] => some []
  | (key, item) :: rest => do
    let key ← key
    let value ← keep? item
    let values ← keepMembers? rest
    some ((key, value) :: values)

end

mutual

/-- How many arrays and objects stand inside each other. -/
def Written.depth : Written → Nat
  | .array items => depthItems items + 1
  | .object members => depthMembers members + 1
  | _ => 0

/-- The depth of the deepest item. -/
def Written.depthItems : List Written → Nat
  | [] => 0
  | item :: rest => max (depth item) (depthItems rest)

/-- The depth of the deepest member. -/
def Written.depthMembers : List (Option String × Written) → Nat
  | [] => 0
  | (_, item) :: rest => max (depth item) (depthMembers rest)

end

mutual

/-- A value as it is written when nothing is repeated. -/
def Written.ofJson : Json → Written
  | .null => .null
  | .boolean b => .boolean b
  | .number n => .number (some n)
  | .string s => .string (some s)
  | .array items => .array (ofItems items)
  | .object members => .object (ofMembers members)

/-- The items of an array as they are written. -/
def Written.ofItems : List Json → List Written
  | [] => []
  | item :: rest => ofJson item :: ofItems rest

/-- The members of an object as they are written. -/
def Written.ofMembers : List (String × Json) → List (Option String × Written)
  | [] => []
  | (key, value) :: rest => (some key, ofJson value) :: ofMembers rest

end

/-- The parts of a value of fixed shape, each by its name: the members of an object, where no known
name stands twice and, if the shape is closed, no other name at all; or the items of an array, in
the order of the names, where the last may be missing. -/
def Written.parts? (names : List String) (closed : Bool) : Written → Option (List (Option Written))
  | .object members => do
    let keyed ← members.mapM fun (key, item) => key.map fun key => (key, item)
    let keys := keyed.map Prod.fst
    if closed && keys.any (fun key => !names.contains key) then none
    else if names.any (fun name => 1 < keys.count name) then none
    else some (names.map (Entries.get? keyed))
  | .array items =>
    if items.length ≤ names.length then
      some (items.map some ++ List.replicate (names.length - items.length) none)
    else none
  | _ => none

/-! ## 4. The grammar -/

/-- Drops the blanks of JSON: space, tab, line feed, carriage return. -/
def skipBlank : List Char → List Char
  | c :: rest => if c = ' ' ∨ c = '\t' ∨ c = '\n' ∨ c = '\r' then skipBlank rest else c :: rest
  | [] => []

/-- The text after a given beginning. -/
def after? : List Char → List Char → Option (List Char)
  | [], cs => some cs
  | e :: expected, c :: rest => if e = c then after? expected rest else none
  | _ :: _, [] => none

/-- Leading digits, and the text after them. -/
def takeDigits : List Char → List Nat × List Char
  | [] => ([], [])
  | c :: rest =>
    match Binary64.digit? c with
    | some d =>
      let (digits, rest) := takeDigits rest
      (d :: digits, rest)
    | none => ([], c :: rest)

/-- The value of a hexadecimal digit. -/
def hexValue? (c : Char) : Option Nat :=
  if '0' ≤ c ∧ c ≤ '9' then some (c.toNat - '0'.toNat)
  else if 'a' ≤ c ∧ c ≤ 'f' then some (c.toNat - 'a'.toNat + 10)
  else if 'A' ≤ c ∧ c ≤ 'F' then some (c.toNat - 'A'.toNat + 10)
  else none

/-- Four hexadecimal digits. -/
def takeHex? : List Char → Option (Nat × List Char)
  | a :: b :: c :: d :: rest => do
    let a ← hexValue? a
    let b ← hexValue? b
    let c ← hexValue? c
    let d ← hexValue? d
    some (((a * 16 + b) * 16 + c) * 16 + d, rest)
  | _ => none

/-- The characters for the sixteen-bit units of a string, if no half of a pair stands alone. -/
def ofUnits? : List Nat → Option (List Char)
  | [] => some []
  | high :: rest =>
    if 0xD800 ≤ high ∧ high < 0xDC00 then
      match rest with
      | low :: rest' =>
        if 0xDC00 ≤ low ∧ low < 0xE000 then
          let code := 0x10000 + (high - 0xD800) * 0x400 + (low - 0xDC00)
          (ofUnits? rest').map (Char.ofNat code :: ·)
        else none
      | [] => none
    else if 0xDC00 ≤ high ∧ high < 0xE000 then none
    else (ofUnits? rest).map (Char.ofNat high :: ·)

/-- The inside of a string up to its closing quote, as code points and escaped units, and the text
after the quote. A control character is refused. Code points above the sixteen-bit range are kept
whole. -/
def takeString? : List Char → Option (List Nat × List Char)
  | [] => none
  | '"' :: rest => some ([], rest)
  | '\\' :: 'u' :: a :: b :: c :: d :: rest => do
    let (unit, _) ← takeHex? [a, b, c, d]
    let (units, rest) ← takeString? rest
    some (unit :: units, rest)
  | '\\' :: e :: rest => do
    let c ← match e with
      | '"' => some '"'
      | '\\' => some '\\'
      | '/' => some '/'
      | 'b' => some '\x08'
      | 'f' => some '\x0c'
      | 'n' => some '\n'
      | 'r' => some '\r'
      | 't' => some '\t'
      | _ => none
    let (units, rest) ← takeString? rest
    some (c.toNat :: units, rest)
  | c :: rest => do
    if c.toNat < 32 ∨ c = '\\' then none
    else
      let (units, rest) ← takeString? rest
      some (c.toNat :: units, rest)

/-- The exponent of a number, if the text has one here; nothing if it has half of one. -/
def takeExponent? : List Char → Option (Option Int × List Char)
  | mark :: rest =>
    if mark = 'e' ∨ mark = 'E' then
      let (negative, digits) := Binary64.takeSign rest
      match Binary64.takeDigits digits with
      | (_, 0, _) => none
      | (value, _ + 1, rest) =>
        some (some (if negative then -Int.ofNat value else Int.ofNat value), rest)
    else some (none, mark :: rest)
  | [] => some (none, [])

/-- A number, after its sign. A first digit of zero stands alone, and a point has digits after it.
-/
def takeNumeral? (negative : Bool) (cs : List Char) : Option (Numeral × List Char) := do
  let (whole, rest) ← match takeDigits cs with
    | ([], _) => none
    | (0 :: _ :: _, _) => none
    | (whole, rest) => some (whole, rest)
  let (fraction, rest) ← match rest with
    | '.' :: rest =>
      match takeDigits rest with
      | ([], _) => none
      | (fraction, rest) => some (some fraction, rest)
    | rest => some (none, rest)
  let (exponent, rest) ← takeExponent? rest
  some ({ negative, whole, fraction, exponent }, rest)

mutual

/-- A value at the beginning of a text without leading blanks, and the text after it. -/
def takeValue? : Nat → List Char → Option (Written × List Char)
  | 0, _ => none
  | fuel + 1, cs =>
    match cs with
    | 'n' :: rest => (after? ['u', 'l', 'l'] rest).map fun rest => (.null, rest)
    | 't' :: rest => (after? ['r', 'u', 'e'] rest).map fun rest => (.boolean true, rest)
    | 'f' :: rest => (after? ['a', 'l', 's', 'e'] rest).map fun rest => (.boolean false, rest)
    | '"' :: rest => do
      let (units, rest) ← takeString? rest
      some (.string ((ofUnits? units).map String.ofList), rest)
    | '[' :: rest =>
      match skipBlank rest with
      | ']' :: rest => some (.array [], rest)
      | rest => do
        let (items, rest) ← takeItems? fuel rest
        some (.array items, rest)
    | '\x7b' :: rest =>
      match skipBlank rest with
      | '\x7d' :: rest => some (.object [], rest)
      | rest => do
        let (members, rest) ← takeMembers? fuel rest
        some (.object members, rest)
    | '-' :: rest => (takeNumeral? true rest).map fun (n, rest) => (.number n.value?, rest)
    | cs => (takeNumeral? false cs).map fun (n, rest) => (.number n.value?, rest)

/-- The items of an array that has some, with its closing bracket. -/
def takeItems? : Nat → List Char → Option (List Written × List Char)
  | 0, _ => none
  | fuel + 1, cs => do
    let (item, rest) ← takeValue? fuel cs
    match skipBlank rest with
    | ']' :: rest => some ([item], rest)
    | ',' :: rest => do
      let (items, rest) ← takeItems? fuel (skipBlank rest)
      some (item :: items, rest)
    | _ => none

/-- The members of an object that has some, with its closing brace. -/
def takeMembers? : Nat → List Char → Option (List (Option String × Written) × List Char)
  | 0, _ => none
  | fuel + 1, cs => do
    match cs with
    | '"' :: rest => do
      let (units, rest) ← takeString? rest
      let key := (ofUnits? units).map String.ofList
      match skipBlank rest with
      | ':' :: rest => do
        let (item, rest) ← takeValue? fuel (skipBlank rest)
        match skipBlank rest with
        | '\x7d' :: rest => some ([(key, item)], rest)
        | ',' :: rest => do
          let (members, rest) ← takeMembers? fuel (skipBlank rest)
          some ((key, item) :: members, rest)
        | _ => none
      | _ => none
    | _ => none

end

/-- The value that a whole text is, as it is written. Each call of the three readers inside each
other takes at least one character every second time. -/
def Written.read? (source : String) : Option Written :=
  let cs := source.toList
  match takeValue? (2 * cs.length + 2) (skipBlank cs) with
  | some (written, rest) => if (skipBlank rest).isEmpty then some written else none
  | none => none

/-- How many arrays and objects may stand inside each other in a text. -/
def depthLimit : Nat := 127

/-- The value that a whole text is. -/
def read? (source : String) : Option Json := do
  let written ← Written.read? source
  if written.depth ≤ depthLimit then written.keep? else none

end GraphQL.Json
