import GraphQL.Binary64

/-!
# `GraphQL/Binary64/Shortest.lean` — the fewest digits that read back

A finite number is written with the fewest significant digits that still round to it, and of several
such with the nearest to it. The digits are chosen by testing, for one digit, two digits and so on,
the two neighbours of the number on that decimal grid against the interval of reals that round to
the number; the first grid with a hit wins. What a format decides — where positional notation ends,
how an exponent looks, which way an exact tie goes — is a `Layout`, and the formats of this library
are the three values at the end.
-/

set_option autoImplicit false

namespace GraphQL.Binary64

/-! ## 1. Choosing the digits -/

/-- A positive decimal number `digits · 10 ^ exponent`. -/
structure DecimalNumber where
  digits : Nat
  exponent : Int
  deriving DecidableEq, Repr

/-- A positive number `significand · 2 ^ exponent` on a decimal grid of step `10 ^ place`: `step`
and `unit` are natural numbers in the ratio of the grid's step to a quarter of the number's last
place. -/
structure Grid where
  step : Nat
  unit : Nat

/-- The grid of step `10 ^ place`, for numbers whose last place is `2 ^ exponent`. -/
def Grid.at (exponent place : Int) : Grid :=
  { step := tenTo place.toNat <<< (2 - exponent).toNat
    unit := tenTo (-place).toNat <<< (exponent - 2).toNat }

/-- Whether `count` steps of the grid lie among the reals that round to `significand · 2 ^
exponent`. The interval reaches half a last place up and down (a quarter down from a power of two,
whose lower neighbour is nearer), and its ends belong to it when the significand is even. -/
def Grid.readsBack (grid : Grid) (significand : Nat) (exponent : Int) (count : Nat) : Bool :=
  let below := if significand = 1 <<< 52 ∧ exponent ≠ -1074 then 1 else 2
  let low := (4 * significand - below) * grid.unit
  let high := (4 * significand + 2) * grid.unit
  let here := count * grid.step
  if significand % 2 = 0 then low ≤ here ∧ here ≤ high else low < here ∧ here < high

/-- The nearer of the number's two neighbours on the grid that read back, if any does. -/
def Grid.choose? (grid : Grid) (tieToEven : Bool) (significand : Nat) (exponent : Int) :
    Option Nat :=
  let value := 4 * significand * grid.unit
  let floor := value / grid.step
  match grid.readsBack significand exponent floor,
      grid.readsBack significand exponent (floor + 1) with
  | true, false => some floor
  | false, true => some (floor + 1)
  | false, false => none
  | true, true =>
    let twice := 2 * (value % grid.step)
    let down := twice < grid.step ∨ (twice = grid.step ∧ tieToEven ∧ floor % 2 = 0)
    some (if down then floor else floor + 1)

/-- The number of decimal digits of a natural number; one for zero. -/
def digitCount (n : Nat) : Nat :=
  (Nat.toDigits 10 n).length

/-- The decimal exponent of the first digit of `significand · 2 ^ exponent`. -/
def leadingPlace (significand : Nat) (exponent : Int) : Int :=
  if 0 ≤ exponent then
    Int.ofNat (digitCount (significand <<< exponent.toNat)) - 1
  else
    Int.ofNat (digitCount ((significand * tenTo 400) >>> (-exponent).toNat)) - 401

/-- Drops zeros from the end, at most `fuel` of them. -/
def DecimalNumber.trim : Nat → DecimalNumber → DecimalNumber
  | 0, d => d
  | fuel + 1, d =>
    if d.digits ≠ 0 ∧ d.digits % 10 = 0 then
      DecimalNumber.trim fuel { digits := d.digits / 10, exponent := d.exponent + 1 }
    else d

/-- The shortest decimal that reads back to `significand · 2 ^ exponent`, for a positive
significand. Seventeen digits always suffice. -/
def shortest (tieToEven : Bool) (significand : Nat) (exponent : Int) : DecimalNumber :=
  let leading := leadingPlace significand exponent
  let candidate (count : Nat) : Option DecimalNumber :=
    let place := leading - Int.ofNat count
    ((Grid.at exponent place).choose? tieToEven significand exponent).map fun digits =>
      { digits, exponent := place }
  let found := ((List.range 17).findSome? candidate).getD { digits := 0, exponent := 0 }
  found.trim 17

/-! ## 2. Laying them out -/

/-- How a format writes a finite number. -/
structure Layout where
  /-- The decimal exponents of the first digit that are written positionally; `none` for all of
  them. -/
  positional : Option (Int × Int)
  /-- A whole number written positionally ends in `.0`. -/
  pointZero : Bool
  /-- A positive exponent has a plus sign. -/
  plusSign : Bool
  /-- Of two digit strings equally near to the number, the one with the even last digit is taken
  rather than the greater. -/
  tieToEven : Bool

/-- Digits with the point after the one of weight `10 ^ 0`. -/
def Layout.positionalText (layout : Layout) (digits : List Char) (exponent : Int) : List Char :=
  let tail := if layout.pointZero then ['.', '0'] else []
  if 0 ≤ exponent then
    digits ++ List.replicate exponent.toNat '0' ++ tail
  else
    let fraction := (-exponent).toNat
    if digits.length ≤ fraction then
      ['0', '.'] ++ List.replicate (fraction - digits.length) '0' ++ digits
    else
      digits.take (digits.length - fraction) ++ '.' :: digits.drop (digits.length - fraction)

/-- Digits with the point after the first, and the exponent of that one. -/
def Layout.scientificText (layout : Layout) (digits : List Char) (leading : Int) : List Char :=
  let mantissa := match digits with
    | first :: next :: rest => first :: '.' :: next :: rest
    | short => short
  let sign := if leading < 0 then ['-'] else if layout.plusSign then ['+'] else []
  mantissa ++ 'e' :: (sign ++ Nat.toDigits 10 leading.natAbs)

/-- The text of a positive decimal number. -/
def Layout.magnitude (layout : Layout) (d : DecimalNumber) : List Char :=
  let digits := Nat.toDigits 10 d.digits
  let leading := d.exponent + Int.ofNat digits.length - 1
  match layout.positional with
  | none => layout.positionalText digits d.exponent
  | some (least, greatest) =>
    if least ≤ leading ∧ leading ≤ greatest then layout.positionalText digits d.exponent
    else layout.scientificText digits leading

/-- The text of a number. Zero is written positionally, with its sign. -/
def Layout.text (layout : Layout) (x : Float) : String :=
  match decode x with
  | .nan => "NaN"
  | .infinite negative => if negative then "-inf" else "inf"
  | .finite negative significand exponent =>
    let magnitude :=
      if significand = 0 then layout.positionalText ['0'] 0
      else layout.magnitude (shortest layout.tieToEven significand exponent)
    String.ofList (if negative then '-' :: magnitude else magnitude)

/-- Numbers in JSON: positional from `10 ^ -5` to below `10 ^ 16`, always with a fraction, and an
exponent with its sign beyond that. -/
def jsonLayout : Layout :=
  { positional := some (-5, 15), pointZero := true, plusSign := true, tieToEven := true }

/-- Numbers made into text values: never an exponent, and no fraction on a whole number. -/
def plainLayout : Layout :=
  { positional := none, pointZero := false, plusSign := false, tieToEven := false }

/-- Numbers in descriptions of values: positional from `10 ^ -4` to below `10 ^ 16`, with a
fraction. -/
def descriptionLayout : Layout :=
  { positional := some (-4, 15), pointZero := true, plusSign := false, tieToEven := false }

/-! The three formats at the ends of their positional ranges. -/

example : jsonLayout.magnitude ⟨1, 15⟩ = "1000000000000000.0".toList := by decide
example : jsonLayout.magnitude ⟨1, 16⟩ = "1e+16".toList := by decide
example : jsonLayout.magnitude ⟨15, -6⟩ = "0.000015".toList := by decide
example : jsonLayout.magnitude ⟨15, -7⟩ = "1.5e-6".toList := by decide
example : descriptionLayout.magnitude ⟨15, -5⟩ = "0.00015".toList := by decide
example : descriptionLayout.magnitude ⟨15, -6⟩ = "1.5e-5".toList := by decide
example : descriptionLayout.magnitude ⟨15, 299⟩ = "1.5e300".toList := by decide
example : plainLayout.magnitude ⟨15, -1⟩ = "1.5".toList := by decide
example : plainLayout.magnitude ⟨1, 3⟩ = "1000".toList := by decide

end GraphQL.Binary64
