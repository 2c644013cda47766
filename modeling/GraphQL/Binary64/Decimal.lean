import GraphQL.Binary64

/-!
# `GraphQL/Binary64/Decimal.lean` — numbers written in decimal

The grammar of a number in a text value: an optional sign, then `inf`, `infinity` or `nan` in any
case, or digits with an optional point (a digit on at least one of its sides) and an optional
exponent. What is read is the binary64 number nearest to what is written.
-/

set_option autoImplicit false

namespace GraphQL.Binary64

/-- The value of an ASCII digit. -/
def digit? (c : Char) : Option Nat :=
  if '0' ≤ c ∧ c ≤ '9' then some (c.toNat - '0'.toNat) else none

/-- The whole number written by the leading digits, how many there are, and the text after them. -/
def takeDigits (cs : List Char) : Nat × Nat × List Char :=
  go 0 0 cs
where
  go (value count : Nat) : List Char → Nat × Nat × List Char
    | [] => (value, count, [])
    | c :: rest =>
      match digit? c with
      | some d => go (value * 10 + d) (count + 1) rest
      | none => (value, count, c :: rest)

/-- A leading sign, `true` for minus, and the text after it. -/
def takeSign : List Char → Bool × List Char
  | '-' :: rest => (true, rest)
  | '+' :: rest => (false, rest)
  | cs => (false, cs)

/-- The exponent that makes up the rest of a number; no text is the exponent zero. -/
def exponent? : List Char → Option Int
  | [] => some 0
  | mark :: rest =>
    if mark = 'e' ∨ mark = 'E' then
      let (negative, digits) := takeSign rest
      match takeDigits digits with
      | (value, count + 1, []) =>
        let _ := count
        some (if negative then -Int.ofNat value else Int.ofNat value)
      | _ => none
    else
      none

/-- An unsigned decimal number as `digits · 10 ^ exponent`. -/
def unsigned? (cs : List Char) : Option (Nat × Int) :=
  let (whole, wholeCount, rest) := takeDigits cs
  let (value, fractionCount, rest) :=
    match rest with
    | '.' :: fraction => takeDigits.go whole 0 fraction
    | _ => (whole, 0, rest)
  if wholeCount + fractionCount = 0 then none
  else (exponent? rest).map fun e => (value, e - Int.ofNat fractionCount)

/-- The number that the whole text is, if it is one. -/
def read? (cs : List Char) : Option Float :=
  let (negative, rest) := takeSign cs
  match rest.map Char.toLower with
  | ['i', 'n', 'f'] | ['i', 'n', 'f', 'i', 'n', 'i', 't', 'y'] => some (infinity negative)
  | ['n', 'a', 'n'] => some notANumber
  | _ => (unsigned? rest).map fun (digits, exponent) => ofDecimal negative digits exponent

end GraphQL.Binary64
