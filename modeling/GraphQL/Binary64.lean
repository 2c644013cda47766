/-!
# `GraphQL/Binary64.lean` — floating-point numbers as exact rationals

A `Float` is read off its bits as a sign, a whole significand and a power of two
(`Binary64.decode`), and made by rounding an exact quotient of natural numbers (`Binary64.nearest`).
Every rule of this library about floating-point numbers — text in both directions, truncation to an
integer, the scaling of a number in JSON — goes through these two functions, so each is a rule about
whole numbers and none of them rests on an operation of `Float` about which the logic knows nothing.
-/

set_option autoImplicit false

namespace GraphQL

/-- What the bits of a binary64 number stand for. -/
inductive Binary64 where
  | nan
  | infinite (negative : Bool)
  /-- The number `± significand · 2 ^ exponent`, with the significand as it is stored: below
  `2 ^ 53`, and at least `2 ^ 52` unless `exponent` is the least one, `-1074`. -/
  | finite (negative : Bool) (significand : Nat) (exponent : Int)
  deriving DecidableEq, Repr, Inhabited

namespace Binary64

/-! ## 1. Reading the bits -/

/-- The fields of a 64-bit pattern: one bit of sign, eleven of exponent, fifty-two of fraction. -/
def ofPattern (bits : Nat) : Binary64 :=
  let negative := bits.testBit 63
  let biased := (bits >>> 52) % (1 <<< 11)
  let fraction := bits % (1 <<< 52)
  if biased = 2047 then
    if fraction = 0 then .infinite negative else .nan
  else if biased = 0 then
    .finite negative fraction (-1074)
  else
    .finite negative ((1 <<< 52) + fraction) (Int.ofNat biased - 1075)

/-- The exact meaning of a floating-point number. -/
def decode (x : Float) : Binary64 :=
  ofPattern x.toBits.toNat

/-- Neither infinite nor "not a number". -/
def isFinite (x : Float) : Bool :=
  match decode x with
  | .finite .. => true
  | _ => false

/-- The integer part, toward zero; nothing for a number that is not finite. -/
def truncate? (x : Float) : Option Int :=
  match decode x with
  | .finite negative significand exponent =>
    let magnitude : Nat :=
      if 0 ≤ exponent then significand <<< exponent.toNat
      else significand >>> (-exponent).toNat
    some (if negative then -Int.ofNat magnitude else Int.ofNat magnitude)
  | _ => none

/-! ## 2. Rounding a quotient

The pattern of a positive number grows with the number, by one from each number to the next. So a
significand that rounds up to the next power of two needs no renormalising: the carry runs into the
field of the exponent, and past the largest finite number into the pattern of infinity. -/

/-- The whole number nearest to `num / den`, a half going to the even neighbour. -/
def roundHalfEven (num den : Nat) : Nat :=
  let quotient := num / den
  let twice := 2 * (num % den)
  if twice < den ∨ (twice = den ∧ quotient % 2 = 0) then quotient else quotient + 1

/-- The quotient `num / den · 2 ^ (-exponent)` as one of natural numbers. -/
def shift (num den : Nat) (exponent : Int) : Nat × Nat :=
  if 0 ≤ exponent then (num, den <<< exponent.toNat) else (num <<< (-exponent).toNat, den)

/-- The exponent of the last binary place that a number near `num / den` keeps: fifty-three places,
or fewer where that would go below `2 ^ -1074`. -/
def unitExponent (num den : Nat) : Int :=
  let guess : Int := Int.ofNat num.log2 - Int.ofNat den.log2 - 53
  let least := max guess (-1074)
  let (n, d) := shift num den least
  if n / d < 1 <<< 53 then least else least + 1

/-- The pattern of the positive binary64 number nearest to `num / den`, a half going to the even
neighbour; the pattern of infinity beyond the largest finite number. -/
def pattern (num den : Nat) : Nat :=
  let unit := unitExponent num den
  let (n, d) := shift num den unit
  min ((unit + 1074).toNat <<< 52 + roundHalfEven n d) (2047 <<< 52)

/-- The binary64 number nearest to `± num / den`, a half going to the even neighbour. -/
def nearest (negative : Bool) (num den : Nat) : Float :=
  let magnitude := if num = 0 then 0 else pattern num den
  Float.ofBits (UInt64.ofNat (if negative then 1 <<< 63 + magnitude else magnitude))

/-- The binary64 number nearest to an integer. -/
def ofInt (n : Int) : Float :=
  nearest (n < 0) n.natAbs 1

/-- An infinity. -/
def infinity (negative : Bool) : Float :=
  Float.ofBits (UInt64.ofNat ((if negative then 1 <<< 63 else 0) + 2047 <<< 52))

/-- The number that differs from itself. -/
def notANumber : Float :=
  Float.ofBits (UInt64.ofNat (2047 <<< 52 + 1 <<< 51))

/-- The power `10 ^ n`. -/
def tenTo (n : Nat) : Nat :=
  Nat.pow 10 n

/-- The binary64 number nearest to `± digits · 10 ^ exponent`. The two early exits keep the powers
of ten small: a positive whole number is at least one, and below `10` to the number of its digits.
-/
def ofDecimal (negative : Bool) (digits : Nat) (exponent : Int) : Float :=
  if digits = 0 then nearest negative 0 1
  else if 310 < exponent then infinity negative
  else if exponent + Int.ofNat (digits.log2 / 3 + 1) < -330 then nearest negative 0 1
  else if 0 ≤ exponent then nearest negative (digits * tenTo exponent.toNat) 1
  else nearest negative digits (tenTo (-exponent).toNat)

/-! ## 3. Scaling -/

/-- The product or quotient of two finite numbers, rounded once; anything else is not needed here
and answers the first argument. -/
def scale (x y : Float) (divide : Bool) : Float :=
  match decode x, decode y with
  | .finite negative m p, .finite _ n q =>
    let (num, den) := if divide then (m, n) else (m * n, 1)
    let power := if divide then p - q else p + q
    if 0 ≤ power then nearest negative (num <<< power.toNat) den
    else nearest negative num (den <<< (-power).toNat)
  | _, _ => x

end Binary64

end GraphQL
