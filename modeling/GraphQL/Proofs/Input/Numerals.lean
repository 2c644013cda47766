import GraphQL.Schema.Scalar

/-!
# `GraphQL/Proofs/Input/Numerals.lean` — integers as they are written

An integer that is written in decimal is read back by everything in the library that reads numbers:
as that integer by `Scalar.integer?`, and as the binary64 number nearest to it by `Binary64.read?`.
Both go through `takeDigits`, and its one law is `takeDigits_of_isDigit`.
-/

set_option autoImplicit false

namespace GraphQL

namespace Binary64

/-! ## 1. Digits -/

theorem digit?_of_isDigit {c : Char} (hc : c.isDigit = true) :
    digit? c = some (c.toNat - '0'.toNat) := by
  have hrange : '0' ≤ c ∧ c ≤ '9' := by
    simpa [Char.isDigit, Char.le_def] using hc
  rw [digit?, if_pos hrange]

theorem ne_of_isDigit {c other : Char} (hc : c.isDigit = true) (ho : other.isDigit = false) :
    c ≠ other := by
  rintro rfl
  rw [hc] at ho
  cases ho

theorem toLower_of_isDigit {c : Char} (hc : c.isDigit = true) : c.toLower = c := by
  have hle : c.val.toNat ≤ 57 := by
    simp only [Char.isDigit, Bool.and_eq_true, decide_eq_true_eq, UInt32.le_iff_toNat_le] at hc
    exact hc.2
  unfold Char.toLower
  refine dif_neg fun h => ?_
  have hge : 65 ≤ c.val.toNat := UInt32.le_iff_toNat_le.mp h.1
  omega

theorem takeDigits_go_of_isDigit {cs : List Char} (hd : ∀ c ∈ cs, c.isDigit = true)
    (value count : Nat) :
    takeDigits.go value count cs = (Nat.ofDigitChars 10 cs value, count + cs.length, []) := by
  induction cs generalizing value count with
  | nil => rfl
  | cons c rest ih =>
    rw [List.forall_mem_cons] at hd
    rw [takeDigits.go, digit?_of_isDigit hd.1]
    dsimp only
    rw [ih hd.2, Nat.ofDigitChars_cons, Nat.mul_comm, List.length_cons, Nat.add_assoc,
      Nat.add_comm 1]

/-- Digits are read to their end. -/
theorem takeDigits_of_isDigit {cs : List Char} (hd : ∀ c ∈ cs, c.isDigit = true) :
    takeDigits cs = (Nat.ofDigitChars 10 cs 0, cs.length, []) := by
  rw [takeDigits, takeDigits_go_of_isDigit hd, Nat.zero_add]

/-- Digits have no sign in front. -/
theorem takeSign_of_isDigit {cs : List Char} (hd : ∀ c ∈ cs, c.isDigit = true) :
    takeSign cs = (false, cs) := by
  unfold takeSign
  split
  · exact absurd rfl (ne_of_isDigit (hd '-' List.mem_cons_self) rfl)
  · exact absurd rfl (ne_of_isDigit (hd '+' List.mem_cons_self) rfl)
  · rfl

/-! ## 2. Whole numbers -/

theorem isDigit_toDigits (n : Nat) : ∀ c ∈ Nat.toDigits 10 n, c.isDigit = true :=
  fun _ hc => Nat.isDigit_of_mem_toDigits (by decide) (by decide) hc

theorem takeDigits_toDigits (n : Nat) :
    ∃ more, takeDigits (Nat.toDigits 10 n) = (n, more + 1, []) := by
  refine ⟨(Nat.toDigits 10 n).length - 1, ?_⟩
  have hpos : 0 < (Nat.toDigits 10 n).length := Nat.length_toDigits_pos
  rw [takeDigits_of_isDigit (isDigit_toDigits n), Nat.ofDigitChars_ten_toDigits,
    Nat.sub_add_cancel hpos]

/-- The number that digits are is none of those that are words. -/
theorem read?_of_isDigit {cs rest : List Char} {negative : Bool}
    (hs : takeSign cs = (negative, rest)) (hd : ∀ c ∈ rest, c.isDigit = true) :
    read? cs =
      (unsigned? rest).map fun (digits, exponent) => ofDecimal negative digits exponent := by
  have hlower : rest.map Char.toLower = rest :=
    (List.map_congr_left fun c hc => toLower_of_isDigit (hd c hc)).trans (List.map_id' rest)
  unfold read?
  rw [hs]
  dsimp only
  rw [hlower]
  split
  · exact absurd rfl (ne_of_isDigit (hd 'i' List.mem_cons_self) rfl)
  · exact absurd rfl (ne_of_isDigit (hd 'i' List.mem_cons_self) rfl)
  · exact absurd rfl (ne_of_isDigit (hd 'n' List.mem_cons_self) rfl)
  · rfl

theorem unsigned?_toDigits (n : Nat) : unsigned? (Nat.toDigits 10 n) = some (n, 0) := by
  obtain ⟨more, h⟩ := takeDigits_toDigits n
  unfold unsigned?
  rw [h]
  rfl

theorem ofDecimal_zero (negative : Bool) (n : Nat) :
    ofDecimal negative n 0 = nearest negative n 1 := by
  unfold ofDecimal
  split
  · next h => rw [h]
  · have hlog : ¬ (0 : Int) + Int.ofNat (n.log2 / 3 + 1) < -330 := by
      simp only [Int.ofNat_eq_natCast]
      omega
    rw [if_neg (by decide), if_neg hlog, if_pos (by decide)]
    show nearest negative (n * 1) 1 = _
    rw [Nat.mul_one]

/-! ## 3. Integers -/

/-- The text of an integer: a sign if it is negative, and digits. -/
theorem toList_toString (n : Int) :
    (toString n).toList =
      if n < 0 then '-' :: Nat.toDigits 10 n.natAbs else Nat.toDigits 10 n.natAbs := by
  rw [Int.toString_eq_repr, Int.repr_eq_if]
  by_cases h : 0 ≤ n
  · rw [if_pos h, if_neg (Int.not_lt.mpr h), Nat.toList_repr]
    congr 1
    omega
  · rw [if_neg h, if_pos (Int.not_le.mp h), String.toList_append, Nat.toList_repr]
    have habs : (-n).toNat = n.natAbs := by omega
    rw [habs]
    rfl

theorem takeSign_toString (n : Int) :
    takeSign (toString n).toList = (decide (n < 0), Nat.toDigits 10 n.natAbs) := by
  rw [toList_toString]
  by_cases h : n < 0
  · rw [if_pos h, decide_eq_true h]
    rfl
  · rw [if_neg h, decide_eq_false h, takeSign_of_isDigit (isDigit_toDigits _)]

/-- The text of an integer is read as the number nearest to it. -/
theorem read?_toString (n : Int) : read? (toString n).toList = some (ofInt n) := by
  rw [read?_of_isDigit (takeSign_toString n) (isDigit_toDigits _), unsigned?_toDigits,
    Option.map_some]
  dsimp only
  rw [ofDecimal_zero, ofInt]

end Binary64

/-- The text of an integer is read as that integer. -/
theorem Scalar.integer?_toString (n : Int) : integer? (toString n) = some n := by
  obtain ⟨more, h⟩ := Binary64.takeDigits_toDigits n.natAbs
  unfold integer?
  rw [Binary64.takeSign_toString]
  dsimp only
  rw [h]
  dsimp only
  congr 1
  by_cases hn : n < 0
  · rw [decide_eq_true hn, if_pos rfl]
    simp only [Int.ofNat_eq_natCast]
    omega
  · rw [decide_eq_false hn, if_neg (by decide)]
    simp only [Int.ofNat_eq_natCast]
    omega

theorem Value.int64?_toInt (n : Int64) : int64? n.toInt = some n := by
  rw [int64?, if_pos ⟨Int64.minValue_le_toInt n, Int64.toInt_le n⟩, Int64.ofInt_toInt]

theorem Scalar.int64?_toString (n : Int64) : int64? (toString n.toInt) = some n := by
  rw [int64?, integer?_toString, Option.bind_some, Value.int64?_toInt]

end GraphQL
