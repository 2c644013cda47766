import Mathlib
import GraphQL.Binary64

/-!
# `GraphQL/Proofs/Binary64/Rounding.lean` — rounding is to the nearest number

A finite floating-point number is a rational number (`Binary64.value?`), and `Binary64.nearest` makes
the one that is nearest to a quotient: no other finite number is nearer, and if another is just as
near, the one that is made has an even significand (`Binary64.roundsTo_nearest`). So a number that
has a floating-point form is never changed (`Binary64.RoundsTo.eq`).

The proof has three parts. Bits: a pattern that is no "not a number" is read back as it is, and the
carry of a significand that rounds up to the next power of two runs into the exponent
(`Binary64.exists_decode_ofBits`). Units: the last place that is kept leaves a significand of
fifty-three places, or of fewer where it is the least place of all (`Binary64.unitExponent_spec`).
Candidates: a number with a coarser last place is a whole number of units, among which rounding to a
whole number has chosen; a number with a finer one lies below all numbers of full length
(`Binary64.Rounded.le`).
-/

set_option autoImplicit false

namespace GraphQL.Binary64

/-! ## 1. Exact values -/

/-- The factor that a sign is. -/
def sign (negative : Bool) : ℤ :=
  if negative then -1 else 1

theorem abs_sign (negative : Bool) : |sign negative| = 1 := by
  cases negative <;> rfl

theorem sign_mul_self (negative : Bool) : sign negative * sign negative = 1 := by
  cases negative <;> rfl

/-- The exact value of a floating-point number, if it is finite. -/
def value? (x : Float) : Option ℚ :=
  match decode x with
  | .finite negative significand exponent => some (sign negative * (significand * 2 ^ exponent))
  | _ => none

/-- A rational number is rounded to a floating-point number: no finite number is nearer, and if
another one is just as near, the significand is even. -/
structure RoundsTo (q : ℚ) (x : Float) (v : ℚ) : Prop where
  value : value? x = some v
  nearest : ∀ y w, value? y = some w → |v - q| ≤ |w - q|
  even : ∀ y w, value? y = some w → w ≠ v → |w - q| = |v - q| →
    ∃ negative significand exponent,
      decode x = .finite negative significand exponent ∧ significand % 2 = 0

/-- A number that has a floating-point form is rounded to itself. -/
theorem RoundsTo.eq {q v : ℚ} {x y : Float} (h : RoundsTo q x v)
    (hy : value? y = some q) : v = q := by
  have hle := h.nearest y q hy
  rw [sub_self, abs_zero] at hle
  exact sub_eq_zero.mp (abs_nonpos_iff.mp hle)

theorem value?_of_decode {x : Float} {negative : Bool} {significand : Nat} {exponent : Int}
    (h : decode x = .finite negative significand exponent) :
    value? x = some (sign negative * ((significand : ℚ) * 2 ^ exponent)) := by
  rw [value?, h]

theorem bounds_of_decode {x : Float} {negative : Bool} {significand : Nat} {exponent : Int}
    (h : decode x = .finite negative significand exponent) :
    significand < 2 ^ 53 ∧ -1074 ≤ exponent := by
  unfold decode ofPattern at h
  dsimp only at h
  have hfraction : x.toBits.toNat % (1 <<< 52) < 2 ^ 52 := Nat.mod_lt _ (by decide)
  split at h
  · split at h <;> cases h
  · split at h
    · cases h
      omega
    · cases h
      rw [Int.ofNat_eq_natCast, Nat.shiftLeft_eq]
      omega

/-- A finite number is a whole number of fifty-three places, shifted. -/
theorem exists_of_value? {x : Float} {value : ℚ} (h : value? x = some value) :
    ∃ (k : ℤ) (exponent : Int), |k| < 2 ^ 53 ∧ -1074 ≤ exponent ∧ value = k * 2 ^ exponent := by
  unfold value? at h
  split at h
  · next negative significand exponent hdecode =>
    obtain ⟨hsignificand, hexponent⟩ := bounds_of_decode hdecode
    refine ⟨sign negative * significand, exponent, ?_, hexponent, ?_⟩
    · rw [abs_mul, abs_sign, one_mul, Nat.abs_cast]
      exact_mod_cast hsignificand
    · rw [← Option.some.inj h]
      push_cast
      rw [mul_assoc]
  · cases h

/-! ## 2. Bits -/

open Float.Model Float.Model.UnpackedFloat in
/-- A pattern that is no "not a number" is kept as it is. -/
theorem toBits_ofBits {bits : UInt64} (h : bits.toNat >>> 52 % (1 <<< 11) ≠ 2047) :
    (Float.ofBits bits).toBits = bits := by
  have hnumber : @isNaNBits Format.binary64 bits.toBitVec = false := by
    rw [isNaNBits, decide_eq_false_iff_not]
    intro hn
    apply h
    have hexponent := congrArg BitVec.toNat hn.1
    rw [unpackExponent_def, BitVec.extractLsb'_toNat] at hexponent
    exact hexponent
  have hpack := @pack_unpack Format.binary64 bits.toBitVec
  rw [hnumber] at hpack
  exact congrArg UInt64.ofBitVec hpack

/-- The pattern of a finite number, with a sign, is read as its two fields. -/
theorem decode_ofBits (negative : Bool) {magnitude : Nat} (hm : magnitude < 2047 * 2 ^ 52) :
    decode (Float.ofBits (UInt64.ofNat (if negative then 1 <<< 63 + magnitude else magnitude))) =
      if magnitude / 2 ^ 52 = 0 then .finite negative (magnitude % 2 ^ 52) (-1074)
      else .finite negative (2 ^ 52 + magnitude % 2 ^ 52)
        (Int.ofNat (magnitude / 2 ^ 52) - 1075) := by
  generalize hp : (if negative then 1 <<< 63 + magnitude else magnitude) = bits
  have hbits : bits = negative.toNat * 2 ^ 63 + magnitude := by
    rw [← hp]
    cases negative <;> simp [Nat.shiftLeft_eq]
  have hsign : negative.toNat ≤ 1 := negative.toNat_le
  have hnat : (UInt64.ofNat bits).toNat = bits := by
    apply UInt64.toNat_ofNat_of_lt'
    rw [UInt64.size]
    omega
  have hnegative : bits.testBit 63 = negative := by
    rw [Nat.testBit_eq_decide_div_mod_eq]
    cases negative <;> simp at hbits <;> simp <;> omega
  have hbiased : bits >>> 52 % (1 <<< 11) = magnitude / 2 ^ 52 := by
    rw [Nat.shiftRight_eq_div_pow, Nat.shiftLeft_eq]
    omega
  have hfraction : bits % (1 <<< 52) = magnitude % 2 ^ 52 := by
    rw [Nat.shiftLeft_eq]
    omega
  have hfinite : bits >>> 52 % (1 <<< 11) ≠ 2047 := by
    rw [hbiased]
    omega
  rw [decode, toBits_ofBits (by rwa [hnat]), hnat, ofPattern]
  rw [hnegative, hbiased, hfraction, if_neg (by omega)]
  rfl

/-- A whole number of units is read back from its pattern, with the carry in the exponent. -/
theorem exists_decode_ofBits (negative : Bool) {unit : Int} {count : Nat} (hl : -1074 ≤ unit)
    (hu : unit ≤ 970) (hle : count ≤ 2 ^ 53) (hge : unit = -1074 ∨ 2 ^ 52 ≤ count) {magnitude : Nat}
    (hm : magnitude = (unit + 1074).toNat * 2 ^ 52 + count) :
    ∃ significand exponent,
      decode (Float.ofBits
        (UInt64.ofNat (if negative then 1 <<< 63 + magnitude else magnitude))) =
          .finite negative significand exponent ∧
      (significand : ℚ) * 2 ^ exponent = count * 2 ^ unit ∧
      (count % 2 = 0 → significand % 2 = 0) := by
  obtain ⟨places, rfl⟩ : ∃ places : Nat, unit = places - 1074 := ⟨(unit + 1074).toNat, by omega⟩
  have hplaces : ((places : Int) - 1074 + 1074).toNat = places := by omega
  rw [hplaces] at hm
  rw [decode_ofBits negative (by omega), hm]
  rcases Nat.lt_or_ge count (2 ^ 52) with hsub | hnormal
  · obtain rfl : places = 0 := by omega
    rw [if_pos (by omega), Nat.zero_mul, Nat.zero_add, Nat.mod_eq_of_lt hsub]
    exact ⟨_, _, rfl, rfl, id⟩
  rw [if_neg (by omega), Int.ofNat_eq_natCast]
  rcases Nat.lt_or_eq_of_le hle with hlt | rfl
  · have hs : 2 ^ 52 + (places * 2 ^ 52 + count) % 2 ^ 52 = count := by omega
    have he : (((places * 2 ^ 52 + count) / 2 ^ 52 : Nat) : Int) - 1075 = places - 1074 := by omega
    rw [hs, he]
    exact ⟨_, _, rfl, rfl, id⟩
  · have hs : 2 ^ 52 + (places * 2 ^ 52 + 2 ^ 53) % 2 ^ 52 = 2 ^ 52 := by omega
    have he : (((places * 2 ^ 52 + 2 ^ 53) / 2 ^ 52 : Nat) : Int) - 1075 = places - 1074 + 1 := by
      omega
    rw [hs, he]
    refine ⟨_, _, rfl, ?_, fun _ => rfl⟩
    rw [zpow_add_one₀ two_ne_zero]
    push_cast
    ring

/-! ## 3. Rounding to a whole number -/

/-- A quotient is its whole part and a rest below one. -/
theorem div_eq_add (num : Nat) {den : Nat} (hd : 0 < den) :
    (num : ℚ) / den = (num / den : Nat) + ((num % den : Nat) : ℚ) / den := by
  have hden : (den : ℚ) ≠ 0 := by exact_mod_cast hd.ne'
  have hsplit : ((den * (num / den) + num % den : Nat) : ℚ) = num :=
    congrArg Nat.cast (Nat.div_add_mod num den)
  rw [div_eq_iff hden, add_mul, div_mul_cancel₀ _ hden, ← hsplit]
  push_cast
  ring

/-- The whole number that a quotient is rounded to is at most half away from it, and if it is just
as far away as that, it is even. -/
theorem roundHalfEven_half (num : Nat) {den : Nat} (hd : 0 < den) :
    |(roundHalfEven num den : ℚ) - num / den| ≤ 1 / 2 ∧
      (|(roundHalfEven num den : ℚ) - num / den| = 1 / 2 → roundHalfEven num den % 2 = 0) := by
  have hden : (0 : ℚ) < den := by exact_mod_cast hd
  have hlt : ((num % den : Nat) : ℚ) / den < 1 := by
    rw [div_lt_one hden]
    exact_mod_cast Nat.mod_lt num hd
  have hdown : 2 * (num % den) ≤ den ↔ ((num % den : Nat) : ℚ) / den ≤ 1 / 2 := by
    rw [div_le_div_iff₀ hden (by norm_num)]
    norm_cast
    omega
  have hup : den ≤ 2 * (num % den) ↔ 1 / 2 ≤ ((num % den : Nat) : ℚ) / den := by
    rw [div_le_div_iff₀ (by norm_num) hden]
    norm_cast
    omega
  rw [div_eq_add num hd]
  unfold roundHalfEven
  dsimp only
  generalize hr : ((num % den : Nat) : ℚ) / den = rest at *
  have hnonneg : 0 ≤ rest := by
    rw [← hr]
    positivity
  split
  · next h =>
    have hle : rest ≤ 1 / 2 := hdown.mp (by omega)
    have habs : |((num / den : Nat) : ℚ) - ((num / den : Nat) + rest)| = rest := by
      rw [sub_add_cancel_left, abs_neg, abs_of_nonneg hnonneg]
    rw [habs]
    refine ⟨hle, fun heq => ?_⟩
    have hge := hup.mpr heq.ge
    omega
  · next h =>
    have hge : 1 / 2 ≤ rest := hup.mp (by omega)
    have habs : |((num / den + 1 : Nat) : ℚ) - ((num / den : Nat) + rest)| = 1 - rest := by
      rw [Nat.cast_succ, add_sub_add_left_eq_sub, abs_of_nonneg (by linarith)]
    rw [habs]
    refine ⟨by linarith, fun heq => ?_⟩
    have hle := hdown.mpr (by linarith)
    omega

/-- No whole number is nearer to a quotient than the one that it is rounded to, and if another is
just as near, this one is even. -/
theorem roundHalfEven_nearest (num : Nat) {den : Nat} (hd : 0 < den) (k : ℤ) :
    |(roundHalfEven num den : ℚ) - num / den| ≤ |(k : ℚ) - num / den| ∧
      (k ≠ roundHalfEven num den →
        |(k : ℚ) - num / den| = |(roundHalfEven num den : ℚ) - num / den| →
        roundHalfEven num den % 2 = 0) := by
  obtain ⟨hle, heven⟩ := roundHalfEven_half num hd
  by_cases hk : k = roundHalfEven num den
  · rw [hk, Int.cast_natCast]
    exact ⟨le_refl _, fun hne => absurd rfl hne⟩
  · have hone : (1 : ℚ) ≤ |(k : ℚ) - (roundHalfEven num den : ℤ)| := by
      exact_mod_cast Int.one_le_abs (sub_ne_zero.mpr hk)
    have hfar := abs_sub_le (k : ℚ) (num / den) (roundHalfEven num den : ℤ)
    rw [abs_sub_comm ((num : ℚ) / den), Int.cast_natCast] at hfar
    rw [Int.cast_natCast] at hone
    exact ⟨by linarith, fun _ heq => heven (by linarith)⟩

/-! ## 4. Units -/

theorem shift_eq (num : Nat) {den : Nat} (hd : 0 < den) (exponent : Int) :
    0 < (shift num den exponent).2 ∧
      ((shift num den exponent).1 : ℚ) / (shift num den exponent).2 = num / den / 2 ^ exponent := by
  unfold shift
  split
  · next h =>
    obtain ⟨places, rfl⟩ := Int.eq_ofNat_of_zero_le h
    rw [Int.toNat_natCast, Nat.shiftLeft_eq, zpow_natCast, div_div]
    refine ⟨by positivity, ?_⟩
    push_cast
    rfl
  · next h =>
    obtain ⟨places, hplaces⟩ := Int.eq_ofNat_of_zero_le (a := -exponent) (by omega)
    obtain rfl : exponent = -(places : Int) := by omega
    rw [neg_neg, Int.toNat_natCast, Nat.shiftLeft_eq, zpow_neg, zpow_natCast, div_inv_eq_mul]
    refine ⟨hd, ?_⟩
    push_cast
    ring

theorem two_pow_log2_le {n : Nat} (hn : 0 < n) : (2 : ℚ) ^ (Int.ofNat n.log2) ≤ n := by
  rw [Int.ofNat_eq_natCast, zpow_natCast]
  exact_mod_cast Nat.log2_self_le hn.ne'

theorem lt_two_pow_log2 (n : Nat) : (n : ℚ) < 2 ^ (Int.ofNat n.log2 + 1) := by
  have h : n < 2 ^ (n.log2 + 1) := Nat.lt_log2_self
  rw [Int.ofNat_eq_natCast, ← Nat.cast_succ, zpow_natCast]
  exact_mod_cast h

/-- The first guess at the last place leaves fifty-three or fifty-four places. -/
theorem guess_bounds {num den : Nat} (hn : 0 < num) (hd : 0 < den) {guess : Int}
    (hg : guess = Int.ofNat num.log2 - Int.ofNat den.log2 - 53) :
    2 ^ 52 * 2 ^ guess ≤ (num : ℚ) / den ∧ (num : ℚ) / den < 2 ^ 54 * 2 ^ guess := by
  have hden : (0 : ℚ) < den := by exact_mod_cast hd
  rw [le_div_iff₀ hden, div_lt_iff₀ hden, hg]
  constructor
  · calc (2 : ℚ) ^ 52 * 2 ^ (Int.ofNat num.log2 - Int.ofNat den.log2 - 53) * den
        ≤ 2 ^ 52 * 2 ^ (Int.ofNat num.log2 - Int.ofNat den.log2 - 53) *
            2 ^ (Int.ofNat den.log2 + 1) := by
          gcongr
          exact (lt_two_pow_log2 den).le
      _ = 2 ^ (Int.ofNat num.log2) := by
          rw [← zpow_natCast, ← zpow_add₀ two_ne_zero, ← zpow_add₀ two_ne_zero]
          congr 1
          push_cast
          ring
      _ ≤ num := two_pow_log2_le hn
  · calc (num : ℚ) < 2 ^ (Int.ofNat num.log2 + 1) := lt_two_pow_log2 num
      _ = 2 ^ 54 * 2 ^ (Int.ofNat num.log2 - Int.ofNat den.log2 - 53) *
            2 ^ (Int.ofNat den.log2) := by
          rw [← zpow_natCast, ← zpow_add₀ two_ne_zero, ← zpow_add₀ two_ne_zero]
          congr 1
          push_cast
          ring
      _ ≤ 2 ^ 54 * 2 ^ (Int.ofNat num.log2 - Int.ofNat den.log2 - 53) * den := by
          gcongr
          exact two_pow_log2_le hd

/-- In units of its last place a positive number is below `2 ^ 53`, and it is at least `2 ^ 52`
unless that place is the least of all. -/
theorem unitExponent_spec {num den : Nat} (hn : 0 < num) (hd : 0 < den) :
    -1074 ≤ unitExponent num den ∧ (num : ℚ) / den < 2 ^ 53 * 2 ^ unitExponent num den ∧
      (unitExponent num den = -1074 ∨ 2 ^ 52 * 2 ^ unitExponent num den ≤ (num : ℚ) / den) := by
  unfold unitExponent
  dsimp only
  generalize hg : Int.ofNat num.log2 - Int.ofNat den.log2 - 53 = guess
  obtain ⟨hbelow, habove⟩ := guess_bounds hn hd hg.symm
  have hmax := max_choice guess (-1074)
  have hle := le_max_left guess (-1074)
  have hleast := le_max_right guess (-1074)
  generalize max guess (-1074) = place at *
  obtain ⟨hpos, hshift⟩ := shift_eq num hd place
  have hplace : (0 : ℚ) < 2 ^ place := by positivity
  have htest : (shift num den place).1 / (shift num den place).2 < 1 <<< 53 ↔
      (num : ℚ) / den < 2 ^ 53 * 2 ^ place := by
    rw [← div_lt_iff₀ hplace, ← hshift, Nat.div_lt_iff_lt_mul hpos,
      div_lt_iff₀ (by exact_mod_cast hpos)]
    norm_cast
  split
  · next h =>
    refine ⟨hleast, htest.mp h, ?_⟩
    rcases hmax with rfl | rfl
    · exact Or.inr hbelow
    · exact Or.inl rfl
  · next h =>
    have hge := not_lt.mp (mt htest.mpr h)
    have hmono : (2 : ℚ) ^ guess ≤ 2 ^ place := zpow_le_zpow_right₀ one_le_two hle
    rw [zpow_add_one₀ two_ne_zero]
    refine ⟨by omega, ?_, Or.inr ?_⟩
    · calc (num : ℚ) / den < 2 ^ 54 * 2 ^ guess := habove
        _ ≤ 2 ^ 54 * 2 ^ place := by gcongr
        _ = 2 ^ 53 * (2 ^ place * 2) := by ring
    · calc (2 : ℚ) ^ 52 * (2 ^ place * 2) = 2 ^ 53 * 2 ^ place := by ring
        _ ≤ (num : ℚ) / den := hge

/-! ## 5. Candidates -/

/-- A positive number rounded to a whole number of units, with the bounds that its pattern needs. -/
structure Rounded (q : ℚ) (unit : Int) (count : Nat) : Prop where
  least : -1074 ≤ unit
  full : unit = -1074 ∨ 2 ^ 52 * 2 ^ unit ≤ q
  below : q < 2 ^ 53 * 2 ^ unit
  nearest : ∀ k : ℤ, |(count : ℚ) - q / 2 ^ unit| ≤ |(k : ℚ) - q / 2 ^ unit|
  even : ∀ k : ℤ, k ≠ count → |(k : ℚ) - q / 2 ^ unit| = |(count : ℚ) - q / 2 ^ unit| →
    count % 2 = 0

variable {q : ℚ} {unit : Int} {count : Nat}

theorem rounded_unitExponent {num den : Nat} (hn : 0 < num) (hd : 0 < den) :
    Rounded (num / den) (unitExponent num den)
      (roundHalfEven (shift num den (unitExponent num den)).1
        (shift num den (unitExponent num den)).2) := by
  obtain ⟨hleast, hbelow, hfull⟩ := unitExponent_spec hn hd
  obtain ⟨hpos, hshift⟩ := shift_eq num hd (unitExponent num den)
  have hnear := roundHalfEven_nearest (shift num den (unitExponent num den)).1 hpos
  rw [hshift] at hnear
  exact ⟨hleast, hfull, hbelow, fun k => (hnear k).1, fun k => (hnear k).2⟩

theorem Rounded.count_le (h : Rounded q unit count) : count ≤ 2 ^ 53 := by
  have hunit : (0 : ℚ) < 2 ^ unit := by positivity
  have hlt : q / 2 ^ unit < 2 ^ 53 := (div_lt_iff₀ hunit).mpr h.below
  have hnear := h.nearest (2 ^ 53)
  rw [Int.cast_pow, Int.cast_ofNat, abs_of_pos (sub_pos.mpr hlt)] at hnear
  have hle : (count : ℚ) ≤ 2 ^ 53 := by linarith [le_abs_self ((count : ℚ) - q / 2 ^ unit)]
  exact_mod_cast hle

theorem Rounded.le_count (h : Rounded q unit count) : unit = -1074 ∨ 2 ^ 52 ≤ count := by
  refine h.full.imp_right fun hfull => ?_
  have hunit : (0 : ℚ) < 2 ^ unit := by positivity
  have hle : 2 ^ 52 ≤ q / 2 ^ unit := (le_div_iff₀ hunit).mpr hfull
  have hnear := h.nearest (2 ^ 52)
  rw [Int.cast_pow, Int.cast_ofNat, abs_of_nonpos (sub_nonpos.mpr hle)] at hnear
  have hge : (2 : ℚ) ^ 52 ≤ count := by linarith [neg_abs_le ((count : ℚ) - q / 2 ^ unit)]
  exact_mod_cast hge

theorem Rounded.unit_le (h : Rounded q unit count) (hq : q < 2 ^ (1023 : ℤ)) : unit ≤ 970 := by
  rcases h.full with rfl | hfull
  · decide
  · by_contra hlarge
    have hle : (2 : ℚ) ^ (1023 : ℤ) ≤ 2 ^ 52 * 2 ^ unit := by
      rw [← zpow_natCast, ← zpow_add₀ two_ne_zero]
      exact zpow_le_zpow_right₀ one_le_two (by push_cast; omega)
    exact absurd (hle.trans hfull) (not_le.mpr hq)

theorem abs_mul_zpow_sub (unit : Int) (k q : ℚ) :
    |k * 2 ^ unit - q| = |k - q / 2 ^ unit| * 2 ^ unit := by
  have hunit : (0 : ℚ) < 2 ^ unit := by positivity
  rw [← abs_of_pos hunit, ← abs_mul, abs_of_pos hunit, sub_mul, div_mul_cancel₀ _ hunit.ne']

/-- A number with a last place above the unit is a whole number of units. -/
theorem exists_eq_mul_zpow (k : ℤ) {exponent : Int} (h : unit ≤ exponent) :
    ∃ units : ℤ, (k : ℚ) * 2 ^ exponent = units * 2 ^ unit := by
  refine ⟨k * 2 ^ (exponent - unit).toNat, ?_⟩
  have hsum : exponent = ((exponent - unit).toNat : ℤ) + unit := by omega
  rw [hsum, zpow_add₀ two_ne_zero, zpow_natCast]
  push_cast
  rw [← hsum, mul_assoc]

/-- A number with a last place below the unit is farther away: it lies below the least number of
full length with that unit, and the number that is rounded does not. -/
theorem Rounded.lt (h : Rounded q unit count) {k : ℤ} (hk : |k| < 2 ^ 53) {exponent : Int}
    (hl : -1074 ≤ exponent) (hlt : exponent < unit) :
    |(count : ℚ) * 2 ^ unit - q| < |(k : ℚ) * 2 ^ exponent - q| := by
  have hunit : (0 : ℚ) < 2 ^ unit := by positivity
  have hfull : 2 ^ 52 * 2 ^ unit ≤ q := h.full.resolve_left (by omega)
  have hnext : (2 : ℚ) ^ (exponent + 1) ≤ 2 ^ unit := zpow_le_zpow_right₀ one_le_two hlt
  rw [zpow_add_one₀ two_ne_zero] at hnext
  have hk' : (k : ℚ) < 2 ^ 53 := by exact_mod_cast (abs_lt.mp hk).2
  have hsmall : (k : ℚ) * 2 ^ exponent < 2 ^ 52 * 2 ^ unit :=
    calc (k : ℚ) * 2 ^ exponent < 2 ^ 53 * 2 ^ exponent := by gcongr
      _ = 2 ^ 52 * (2 ^ exponent * 2) := by ring
      _ ≤ 2 ^ 52 * 2 ^ unit := by gcongr
  calc |(count : ℚ) * 2 ^ unit - q| ≤ |((2 ^ 52 : ℤ) : ℚ) * 2 ^ unit - q| := by
        rw [abs_mul_zpow_sub, abs_mul_zpow_sub]
        exact mul_le_mul_of_nonneg_right (h.nearest _) hunit.le
    _ = q - 2 ^ 52 * 2 ^ unit := by
        rw [Int.cast_pow, Int.cast_ofNat, abs_of_nonpos (by linarith), neg_sub]
    _ < q - k * 2 ^ exponent := by linarith
    _ = |(k : ℚ) * 2 ^ exponent - q| := by
        rw [abs_of_nonpos (by linarith), neg_sub]

/-- No number of fifty-three places is nearer than the rounded one. -/
theorem Rounded.le (h : Rounded q unit count) {k : ℤ} (hk : |k| < 2 ^ 53) {exponent : Int}
    (hl : -1074 ≤ exponent) :
    |(count : ℚ) * 2 ^ unit - q| ≤ |(k : ℚ) * 2 ^ exponent - q| ∧
      ((k : ℚ) * 2 ^ exponent ≠ count * 2 ^ unit →
        |(k : ℚ) * 2 ^ exponent - q| = |(count : ℚ) * 2 ^ unit - q| → count % 2 = 0) := by
  rcases lt_or_ge exponent unit with hlt | hge
  · have hfar := h.lt hk hl hlt
    exact ⟨hfar.le, fun _ heq => absurd heq hfar.ne'⟩
  · obtain ⟨units, hunits⟩ := exists_eq_mul_zpow k hge
    have hunit : (0 : ℚ) < 2 ^ unit := by positivity
    rw [hunits, abs_mul_zpow_sub, abs_mul_zpow_sub]
    refine ⟨mul_le_mul_of_nonneg_right (h.nearest units) hunit.le, fun hne heq => ?_⟩
    refine h.even units ?_ (mul_right_cancel₀ hunit.ne' heq)
    rintro rfl
    exact hne rfl

/-! ## 6. The nearest number -/

theorem pattern_eq {num den : Nat} (hn : 0 < num) (hd : 0 < den)
    (hmax : (num : ℚ) / den < 2 ^ (1023 : ℤ)) :
    ∃ unit count, Rounded (num / den) unit count ∧
      pattern num den = (unit + 1074).toNat * 2 ^ 52 + count := by
  have hrounded := rounded_unitExponent hn hd
  refine ⟨_, _, hrounded, ?_⟩
  have hpattern : pattern num den = min ((unitExponent num den + 1074).toNat <<< 52 +
      roundHalfEven (shift num den (unitExponent num den)).1
        (shift num den (unitExponent num den)).2) (2047 <<< 52) := rfl
  have hcount := hrounded.count_le
  have hunit := hrounded.unit_le hmax
  rw [hpattern, Nat.shiftLeft_eq, Nat.shiftLeft_eq, min_eq_left]
  omega

/-- Rounding is symmetric: a sign goes through it. -/
theorem roundsTo_of_sign {negative : Bool} {x : Float} {significand : Nat} {exponent : Int}
    (hx : decode x = .finite negative significand exponent)
    (hle : ∀ (k : ℤ) (other : Int), |k| < 2 ^ 53 → -1074 ≤ other →
      |(significand : ℚ) * 2 ^ exponent - q| ≤ |(k : ℚ) * 2 ^ other - q| ∧
        ((k : ℚ) * 2 ^ other ≠ significand * 2 ^ exponent →
          |(k : ℚ) * 2 ^ other - q| = |(significand : ℚ) * 2 ^ exponent - q| →
          significand % 2 = 0)) :
    RoundsTo (sign negative * q) x (sign negative * (significand * 2 ^ exponent)) := by
  -- Turning both numbers around keeps how far they are apart, and a candidate stays one.
  have hturn : ∀ y other, value? y = some other → ∃ (k : ℤ) (place : Int), |k| < 2 ^ 53 ∧
      -1074 ≤ place ∧ other = sign negative * (k * 2 ^ place) := by
    intro y other hy
    obtain ⟨k, place, hk, hp, rfl⟩ := exists_of_value? hy
    refine ⟨sign negative * k, place, ?_, hp, ?_⟩
    · rwa [abs_mul, abs_sign, one_mul]
    · rw [← mul_assoc, ← Int.cast_mul, ← mul_assoc, sign_mul_self, one_mul]
  have habs : ∀ a b : ℚ, |sign negative * a - sign negative * b| = |a - b| := by
    intro a b
    rw [← mul_sub, abs_mul, ← Int.cast_abs, abs_sign, Int.cast_one, one_mul]
  refine ⟨value?_of_decode hx, fun y other hy => ?_, fun y other hy hne heq => ?_⟩
  · obtain ⟨k, place, hk, hp, rfl⟩ := hturn y other hy
    rw [habs, habs]
    exact (hle k place hk hp).1
  · obtain ⟨k, place, hk, hp, rfl⟩ := hturn y other hy
    rw [habs, habs] at heq
    refine ⟨_, _, _, hx, (hle k place hk hp).2 ?_ heq⟩
    intro h
    exact hne (congrArg _ h)

theorem roundsTo_zero (negative : Bool) (den : Nat) : RoundsTo 0 (nearest negative 0 den) 0 := by
  have hx : decode (nearest negative 0 den) = .finite negative 0 (-1074) := by
    rw [nearest, if_pos rfl]
    exact decode_ofBits negative (by decide : 0 < 2047 * 2 ^ 52)
  have hvalue := value?_of_decode hx
  rw [Nat.cast_zero, zero_mul, mul_zero] at hvalue
  refine ⟨hvalue, fun y other _ => ?_, fun _ _ _ _ _ => ⟨_, _, _, hx, rfl⟩⟩
  rw [sub_zero, abs_zero]
  exact abs_nonneg _

/-- The number that is made of a quotient is the nearest one. -/
theorem roundsTo_nearest (negative : Bool) {num den : Nat} (hn : 0 < num) (hd : 0 < den)
    (hmax : (num : ℚ) / den < 2 ^ (1023 : ℤ)) :
    ∃ unit count, Rounded (num / den) unit count ∧
      RoundsTo (sign negative * (num / den)) (nearest negative num den)
        (sign negative * (count * 2 ^ unit)) := by
  obtain ⟨unit, count, hrounded, hpattern⟩ := pattern_eq hn hd hmax
  obtain ⟨significand, exponent, hdecode, hvalue, heven⟩ := exists_decode_ofBits negative
    hrounded.least (hrounded.unit_le hmax) hrounded.count_le hrounded.le_count hpattern
  have hx : decode (nearest negative num den) = .finite negative significand exponent := by
    rw [← hdecode, nearest, if_neg hn.ne']
  refine ⟨unit, count, hrounded, ?_⟩
  rw [← hvalue]
  refine roundsTo_of_sign hx fun k other hk ho => ?_
  rw [hvalue]
  obtain ⟨hle, htie⟩ := hrounded.le hk ho
  exact ⟨hle, fun hne heq => heven (htie hne heq)⟩

/-! ## 7. Integers -/

/-- A whole number that is rounded to units of at most one is kept. -/
theorem Rounded.eq_of_nonpos {num : Nat} (h : Rounded num unit count) (hu : unit ≤ 0) :
    (count : ℚ) * 2 ^ unit = num := by
  have hunit : (0 : ℚ) < 2 ^ unit := by positivity
  obtain ⟨units, hunits⟩ := exists_eq_mul_zpow num hu
  rw [zpow_zero, mul_one, Int.cast_natCast] at hunits
  have hnear := h.nearest units
  rw [hunits, mul_div_cancel_right₀ _ hunit.ne', sub_self, abs_zero, abs_nonpos_iff,
    sub_eq_zero] at hnear
  rw [hnear, hunits]

theorem Rounded.nonpos {num : Nat} (h : Rounded num unit count) (hn : num < 2 ^ 53) :
    unit ≤ 0 := by
  by_contra hlarge
  have hfull := h.full.resolve_left (by omega)
  have htwo : (2 : ℚ) ^ (1 : ℤ) ≤ 2 ^ unit := zpow_le_zpow_right₀ one_le_two (by omega)
  have hlt : (num : ℚ) < 2 ^ 53 := by exact_mod_cast hn
  rw [zpow_one] at htwo
  linarith

/-- A whole number is rounded to a whole number: either its units are at least one, or it is kept.
-/
theorem Rounded.exists_eq_natCast {num : Nat} (h : Rounded num unit count) :
    ∃ m : Nat, (count : ℚ) * 2 ^ unit = m := by
  rcases le_total unit 0 with hu | hu
  · exact ⟨num, h.eq_of_nonpos hu⟩
  · obtain ⟨places, rfl⟩ := Int.eq_ofNat_of_zero_le hu
    refine ⟨count * 2 ^ places, ?_⟩
    rw [zpow_natCast]
    push_cast
    rfl

theorem sign_mul_natAbs (n : ℤ) : sign (n < 0) * n.natAbs = n := by
  unfold sign
  split
  · next h =>
    have hneg : n < 0 := of_decide_eq_true h
    omega
  · next h =>
    have hnonneg : ¬ n < 0 := fun hneg => h (decide_eq_true hneg)
    omega

/-- An integer is rounded to the nearest number, which is an integer. -/
theorem roundsTo_ofInt {n : ℤ} (hn : |(n : ℚ)| < 2 ^ (1023 : ℤ)) :
    ∃ m : ℤ, RoundsTo n (ofInt n) m ∧ (|n| < 2 ^ 53 → m = n) := by
  by_cases hzero : n = 0
  · refine ⟨0, ?_, fun _ => hzero.symm⟩
    rw [hzero, Int.cast_zero]
    exact roundsTo_zero _ _
  have hmax : (n.natAbs : ℚ) / (1 : Nat) < 2 ^ (1023 : ℤ) := by
    rwa [Nat.cast_one, div_one, Nat.cast_natAbs, Int.cast_abs]
  obtain ⟨unit, count, hrounded, h⟩ :=
    roundsTo_nearest (n < 0) (Int.natAbs_pos.mpr hzero) Nat.one_pos hmax
  have hsigned : (sign (n < 0) : ℚ) * (n.natAbs : ℚ) = n := by
    rw [← Int.cast_natCast, ← Int.cast_mul, sign_mul_natAbs]
  rw [Nat.cast_one, div_one] at hrounded h
  obtain ⟨m, hm⟩ := hrounded.exists_eq_natCast
  rw [hsigned, hm] at h
  refine ⟨sign (n < 0) * m, by exact_mod_cast h, fun hsmall => ?_⟩
  rw [Int.abs_eq_natAbs] at hsmall
  have hkept := hrounded.eq_of_nonpos (hrounded.nonpos (by omega))
  have hnat : m = n.natAbs := by exact_mod_cast hm.symm.trans hkept
  rw [hnat, sign_mul_natAbs]

end GraphQL.Binary64
