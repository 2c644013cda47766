import GraphQL.Proofs.Binary64.Rounding
import GraphQL.Proofs.Input.Numerals

/-!
# `GraphQL/Proofs/Input/Integers.lean` — the integers that the type `Int` covers

The built-in type `Int` holds the integers of 64 bits with sign. A value that is one stays what it
is; anything else that counts as a number is made a floating-point number first, and comes to the
whole part of that (`Scalar.coerce_float`). So a text of digits is read as the nearest
floating-point number, which is the integer itself if it has no more than fifty-three places, and
another one for most of those with more (`Scalar.int_covers`).

Of the two ends, `2 ^ 63` is out of range. A number with the whole part `-2 ^ 63` is refused as well,
although an integer of 64 bits holds that, and `Scalar.int_covers` leaves it open.
-/

set_option autoImplicit false

namespace GraphQL

/-! ## 1. Whole parts -/

namespace Binary64

/-- The whole part of a number, toward zero. -/
def wholePart (q : ℚ) : ℤ :=
  if 0 ≤ q then ⌊q⌋ else ⌈q⌉

@[simp] theorem wholePart_intCast (n : ℤ) : wholePart n = n := by
  unfold wholePart
  split
  · exact Int.floor_intCast n
  · exact Int.ceil_intCast n

theorem wholePart_sign_mul (negative : Bool) {q : ℚ} (hq : 0 ≤ q) :
    wholePart (sign negative * q) = sign negative * ⌊q⌋ := by
  cases negative with
  | false =>
    have hsame : ((sign false : ℤ) : ℚ) * q = q := by simp [sign]
    rw [hsame, wholePart, if_pos hq]
    simp [sign]
  | true =>
    have hturned : ((sign true : ℤ) : ℚ) * q = -q := by simp [sign]
    rw [hturned, wholePart]
    split
    · next h =>
      obtain rfl : q = 0 := le_antisymm (neg_nonneg.mp h) hq
      simp
    · rw [Int.ceil_neg]
      simp [sign]

theorem floor_shift (significand : Nat) (exponent : Int) :
    ⌊(significand : ℚ) * 2 ^ exponent⌋ =
      Int.ofNat (if 0 ≤ exponent then significand <<< exponent.toNat
        else significand >>> (-exponent).toNat) := by
  rw [Int.ofNat_eq_natCast]
  split
  · next h =>
    obtain ⟨places, rfl⟩ := Int.eq_ofNat_of_zero_le h
    have hwhole : (significand : ℚ) * 2 ^ (places : ℤ) = ((significand * 2 ^ places : Nat) : ℤ) := by
      push_cast
      rfl
    rw [hwhole, Int.floor_intCast, Int.toNat_natCast, Nat.shiftLeft_eq]
  · next h =>
    obtain ⟨places, hplaces⟩ := Int.eq_ofNat_of_zero_le (a := -exponent) (by omega)
    obtain rfl : exponent = -(places : Int) := by omega
    have hquotient : (significand : ℚ) * 2 ^ (-(places : ℤ)) =
        (significand : ℚ) / ((2 ^ places : Nat) : ℚ) := by
      rw [zpow_neg, zpow_natCast, ← div_eq_mul_inv]
      push_cast
      rfl
    rw [hquotient, Rat.floor_natCast_div_natCast, neg_neg, Int.toNat_natCast,
      Nat.shiftRight_eq_div_pow, Int.natCast_ediv]

/-- Truncation gives the whole part of the exact value. -/
theorem truncate?_of_value? {x : Float} {q : ℚ} (h : value? x = some q) :
    truncate? x = some (wholePart q) := by
  unfold value? at h
  split at h
  · next negative significand exponent hdecode =>
    have hnonneg : (0 : ℚ) ≤ (significand : ℚ) * 2 ^ exponent := by positivity
    rw [← Option.some.inj h, wholePart_sign_mul negative hnonneg, floor_shift]
    unfold truncate?
    rw [hdecode]
    cases negative with
    | false => exact congrArg some (one_mul _).symm
    | true => exact congrArg some (neg_one_mul _).symm
  · cases h

end Binary64

/-! ## 2. Texts -/

theorem Text.trim_of_forall {cs : List Char} (h : ∀ c ∈ cs, isBlank c = false) : trim cs = cs := by
  have hdrop : ∀ {cs : List Char}, (∀ c ∈ cs, isBlank c = false) → cs.dropWhile isBlank = cs := by
    intro cs h
    cases cs with
    | nil => rfl
    | cons c rest => rw [List.dropWhile_cons_of_neg (by simp [h c List.mem_cons_self])]
  rw [trim, hdrop h, hdrop fun c hc => h c (List.mem_reverse.mp hc), List.reverse_reverse]

theorem Text.isBlank_of_isDigit {c : Char} (hc : c.isDigit = true) : isBlank c = false := by
  have hrange : 48 ≤ c.toNat ∧ c.toNat ≤ 57 := by
    simpa [Char.isDigit, UInt32.le_iff_toNat_le] using hc
  unfold isBlank
  simp
  omega

/-- The text of an integer has no blanks around it. -/
theorem Text.trim_toString (n : ℤ) : trim (toString n).toList = (toString n).toList := by
  have hdigits : ∀ c ∈ Nat.toDigits 10 n.natAbs, isBlank c = false := fun c hc =>
    isBlank_of_isDigit (Binary64.isDigit_toDigits _ c hc)
  apply trim_of_forall
  rw [Binary64.toList_toString]
  split
  · rw [List.forall_mem_cons]
    exact ⟨rfl, hdigits⟩
  · exact hdigits

/-! ## 3. The type `Int` -/

namespace Scalar

open Binary64

theorem coerce_toString (n : ℤ) :
    int.coerce (.string (toString n)) = int.coerce (.float (ofInt n)) := by
  have hread : toFloat? (.string (toString n)) = toFloat? (.float (ofInt n)) := by
    show read? (Text.trim (toString n).toList) = some (ofInt n)
    rw [Text.trim_toString, read?_toString]
  simp only [int, toInt?, hread]

/-- A finite number comes to its whole part, if that is above `-2 ^ 63` and below `2 ^ 63`. -/
theorem coerce_float {x : Float} {q : ℚ} (h : value? x = some q) :
    int.coerce (.float x) =
      if -2 ^ 63 < wholePart q ∧ wholePart q < 2 ^ 63 then
        some (.int (Int64.ofInt (wholePart q)))
      else none := by
  have hrange : Int64.minValue.toInt < wholePart q ∧ wholePart q ≤ Int64.maxValue.toInt ↔
      -2 ^ 63 < wholePart q ∧ wholePart q < 2 ^ 63 := by
    rw [Int64.toInt_minValue, Int64.toInt_maxValue]
    omega
  simp only [int, toInt?, toFloat?, Option.bind_eq_bind, Option.bind_some, truncate?_of_value? h,
    hrange]
  split <;> rfl

/-- The whole range apart from its lower end, which `coerce_float` leaves out. -/
theorem coerce_float_of_ne {x : Float} {q : ℚ} (h : value? x = some q)
    (hq : wholePart q ≠ -2 ^ 63) :
    int.coerce (.float x) =
      if -2 ^ 63 ≤ wholePart q ∧ wholePart q < 2 ^ 63 then
        some (.int (Int64.ofInt (wholePart q)))
      else none := by
  have hrange : -2 ^ 63 ≤ wholePart q ∧ wholePart q < 2 ^ 63 ↔
      -2 ^ 63 < wholePart q ∧ wholePart q < 2 ^ 63 := by omega
  rw [coerce_float h]
  simp only [hrange]

theorem roundsTo_of_int64 {n : ℤ} (hl : -2 ^ 63 ≤ n) (hu : n < 2 ^ 63) :
    ∃ m : ℤ, RoundsTo n (ofInt n) m ∧ (|n| < 2 ^ 53 → m = n) := by
  have hn : |n| ≤ 2 ^ 63 := abs_le.mpr ⟨hl, hu.le⟩
  apply roundsTo_ofInt
  calc |(n : ℚ)| = ((|n| : ℤ) : ℚ) := (Int.cast_abs).symm
    _ ≤ 2 ^ 63 := by exact_mod_cast hn
    _ = 2 ^ (63 : ℤ) := (zpow_natCast 2 63).symm
    _ < 2 ^ (1023 : ℤ) := zpow_lt_zpow_right₀ one_lt_two (by decide)

/-- The type `Int` over all integers of 64 bits and all finite numbers. An integer stays what it is.
Its text is read as the nearest floating-point number, and so is kept if that is the integer itself,
as it is below `2 ^ 53`. A finite number comes to its whole part if 64 bits hold that, and to
nothing otherwise. -/
theorem int_covers :
    (∀ n : ℤ, -2 ^ 63 ≤ n → n < 2 ^ 63 →
      int.coerce (.int (Int64.ofInt n)) = some (.int (Int64.ofInt n)) ∧
      (∃ (x : Float) (m : ℤ), RoundsTo n x m ∧ (|n| < 2 ^ 53 → m = n) ∧
        (m ≠ -2 ^ 63 → int.coerce (.string (toString n)) =
          if -2 ^ 63 ≤ m ∧ m < 2 ^ 63 then some (.int (Int64.ofInt m)) else none)) ∧
      ∀ x, value? x = some (n : ℚ) → n ≠ -2 ^ 63 →
        int.coerce (.string (toString n)) = some (.int (Int64.ofInt n)) ∧
        int.coerce (.float x) = some (.int (Int64.ofInt n))) ∧
    ∀ (x : Float) (q : ℚ), value? x = some q → wholePart q ≠ -2 ^ 63 →
      int.coerce (.float x) =
        if -2 ^ 63 ≤ wholePart q ∧ wholePart q < 2 ^ 63 then
          some (.int (Int64.ofInt (wholePart q)))
        else none := by
  refine ⟨fun n hl hu => ⟨rfl, ?_, fun x hx hn => ?_⟩, fun x q => coerce_float_of_ne⟩
  · obtain ⟨m, hround, hsmall⟩ := roundsTo_of_int64 hl hu
    refine ⟨ofInt n, m, hround, hsmall, fun hm => ?_⟩
    rw [coerce_toString, coerce_float_of_ne hround.value (by rwa [wholePart_intCast]),
      wholePart_intCast]
  · have hkept : ∀ y, value? y = some (n : ℚ) →
        int.coerce (.float y) = some (.int (Int64.ofInt n)) := by
      intro y hy
      rw [coerce_float_of_ne hy (by rwa [wholePart_intCast]), wholePart_intCast, if_pos ⟨hl, hu⟩]
    obtain ⟨m, hround, -⟩ := roundsTo_of_int64 hl hu
    have hm : (m : ℚ) = n := hround.eq hx
    rw [coerce_toString]
    exact ⟨hkept _ (hm ▸ hround.value), hkept x hx⟩

/-- A text of ten digits with a sign, and the number `-3 / 2`. -/
theorem int_covers_sample :
    int.coerce (.string (toString (-9876504321 : ℤ))) = some (.int (Int64.ofInt (-9876504321))) ∧
      int.coerce (.float (nearest true 3 2)) = some (.int (Int64.ofInt (-1))) := by
  have hlong : value? (ofInt (-9876504321)) = some ((-9876504321 : ℤ) : ℚ) := by
    rw [value?_of_decode (by decide : decode (ofInt (-9876504321)) =
      .finite true 5178132697448448 (-19))]
    norm_num [sign]
  have hhalves : value? (nearest true 3 2) = some (-3 / 2) := by
    rw [value?_of_decode (by decide : decode (nearest true 3 2) =
      .finite true 6755399441055744 (-52))]
    norm_num [sign]
  have hwhole : wholePart (-3 / 2) = -1 := by
    norm_num [wholePart, Int.ceil_eq_iff]
  refine ⟨((int_covers.1 (-9876504321) (by decide) (by decide)).2.2 _ hlong (by decide)).1, ?_⟩
  rw [int_covers.2 _ _ hhalves (by rw [hwhole]; decide), hwhole]
  rfl

/-- Beyond fifty-three places a text may come to another integer than the one it holds. -/
theorem text_rounded :
    (-2 ^ 63 ≤ (2 ^ 53 + 1 : ℤ) ∧ (2 ^ 53 + 1 : ℤ) < 2 ^ 63) ∧
      int.coerce (.string (toString (2 ^ 53 + 1 : ℤ))) = some (.int (Int64.ofInt (2 ^ 53))) ∧
      int.coerce (.string (toString (2 ^ 53 + 1 : ℤ))) ≠
        some (.int (Int64.ofInt (2 ^ 53 + 1))) := by
  have htext : int.coerce (.string (toString (2 ^ 53 + 1 : ℤ))) =
      some (.int (Int64.ofInt (2 ^ 53))) := by
    have hwhole : truncate? (ofInt (2 ^ 53 + 1)) = some (2 ^ 53) := by decide
    rw [coerce_toString]
    simp only [int, toInt?, toFloat?, Option.bind_eq_bind, Option.bind_some, hwhole]
    rfl
  refine ⟨by decide, htext, ?_⟩
  rw [htext]
  intro h
  injection h with h
  injection h with h
  exact absurd h (by decide)

end Scalar

end GraphQL
