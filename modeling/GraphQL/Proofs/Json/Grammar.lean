import GraphQL.Json.Text
import GraphQL.Proofs.Input.Numerals
import GraphQL.Proofs.Json.Keyed

/-!
# `GraphQL/Proofs/Json/Grammar.lean` — the text of a value is read as that value

Reading undoes writing: the compact text of a value is read as what is written of that value
(`Json.Written.read?_text`), and has that value if no key stands twice in it (`Json.read?_text`).

The readers take a value from the beginning of a text, so what is proved of them is about texts that
go on (`Json.ReadsBack`), and how they go on matters only after a number, whose last digit does not
say that it is the last. In compact text a comma, a closing bracket or the end stands there
(`Json.Follows`). The readers count down while they go into each other; two for each character are
enough, because an item takes at least its comma.

Integers of 64 bits are read exactly (`Json.Number.exact_integer`). Floating-point numbers are
rounded twice on the way, so whether the text of one leads back to it is a condition on that number
(`Json.Number.Exact`).
-/

set_option autoImplicit false

namespace GraphQL.Json

/-! ## 1. What may follow a value -/

/-- A text goes on after a value: it is at its end, or at a comma or a closing bracket. -/
inductive Follows : List Char → Prop where
  | nil : Follows []
  | comma (rest : List Char) : Follows (',' :: rest)
  | bracket (rest : List Char) : Follows (']' :: rest)
  | brace (rest : List Char) : Follows ('\x7d' :: rest)

/-- No value begins with a blank or a closing bracket. -/
theorem takeValue?_eq_none {c : Char} (hc : c ∈ [' ', '\t', '\n', '\r', ']', '\x7d']) (fuel : Nat)
    (rest : List Char) : takeValue? fuel (c :: rest) = none := by
  cases fuel with
  | zero => rfl
  | succ fuel =>
    simp only [List.mem_cons, List.not_mem_nil, or_false] at hc
    rcases hc with rfl | rfl | rfl | rfl | rfl | rfl <;> rfl

theorem skipBlank_of_takeValue? {fuel : Nat} {cs : List Char} {read : Written × List Char}
    (h : takeValue? fuel cs = some read) : skipBlank cs = cs := by
  cases cs with
  | nil => rfl
  | cons c rest =>
    rw [skipBlank, if_neg]
    intro hc
    have hm : c ∈ [' ', '\t', '\n', '\r', ']', '\x7d'] := by
      rcases hc with rfl | rfl | rfl | rfl <;> simp
    rw [takeValue?_eq_none hm] at h
    cases h

theorem exists_takeValue?_of_takeItems? {fuel : Nat} {cs : List Char}
    {read : List Written × List Char} (h : takeItems? fuel cs = some read) :
    ∃ less first, takeValue? less cs = some first := by
  cases fuel with
  | zero => cases h
  | succ fuel =>
    rw [takeItems?, Option.bind_eq_bind, Option.bind_eq_some_iff] at h
    obtain ⟨first, hf, -⟩ := h
    exact ⟨fuel, first, hf⟩

/-! ## 2. Numbers -/

/-- The value of a digit. -/
def digitValue (c : Char) : Nat :=
  c.toNat - '0'.toNat

theorem takeDigits_append {digits rest : List Char} (hd : ∀ c ∈ digits, c.isDigit = true)
    (hr : Follows rest) : takeDigits (digits ++ rest) = (digits.map digitValue, rest) := by
  induction digits with
  | nil => cases hr <;> rfl
  | cons c digits ih =>
    rw [List.forall_mem_cons] at hd
    rw [List.cons_append, takeDigits, Binary64.digit?_of_isDigit hd.1, ih hd.2]
    rfl

theorem foldl_digitValue (digits : List Char) (value : Nat) :
    (digits.map digitValue).foldl (fun value d => value * 10 + d) value =
      Nat.ofDigitChars 10 digits value := by
  induction digits generalizing value with
  | nil => rfl
  | cons c digits ih =>
    rw [List.map_cons, List.foldl_cons, ih, Nat.ofDigitChars_cons, Nat.mul_comm]
    rfl

/-- No other number than zero begins with a zero. -/
theorem toDigits_eq_zero_cons {n : Nat} {rest : List Char} (h : Nat.toDigits 10 n = '0' :: rest) :
    rest = [] := by
  induction n using Nat.strongRecOn generalizing rest with
  | _ n ih =>
    by_cases hn : n < 10
    · rw [Nat.toDigits_of_lt_base hn] at h
      exact (List.cons.inj h).2.symm
    · rw [Nat.toDigits_of_base_le (by decide) (by omega)] at h
      cases ht : Nat.toDigits 10 (n / 10) with
      | nil => exact absurd ht (List.ne_nil_of_length_pos Nat.length_toDigits_pos)
      | cons c tail =>
        rw [ht, List.cons_append] at h
        obtain ⟨rfl, -⟩ := List.cons.inj h
        cases ih (n / 10) (by omega) ht
        have hzero := congrArg (fun digits => Nat.ofDigitChars 10 digits 0) ht
        rw [Nat.ofDigitChars_ten_toDigits] at hzero
        have : n / 10 = 0 := hzero
        omega

theorem digitValue_eq_zero {c : Char} (hc : c.isDigit = true) (h : digitValue c = 0) : c = '0' := by
  have hle : '0'.toNat ≤ c.toNat := by
    simp only [Char.isDigit, Bool.and_eq_true, decide_eq_true_eq, UInt32.le_iff_toNat_le] at hc
    exact hc.1
  exact Char.toNat_inj.mp (Nat.le_antisymm (Nat.sub_eq_zero_iff_le.mp h) hle)

/-- The digits of a number, with whatever may follow a value. -/
theorem takeNumeral?_toDigits (negative : Bool) (n : Nat) {rest : List Char} (hr : Follows rest) :
    takeNumeral? negative (Nat.toDigits 10 n ++ rest) =
      some ({ negative, whole := (Nat.toDigits 10 n).map digitValue, fraction := none
              exponent := none }, rest) := by
  have hdigits := Binary64.isDigit_toDigits n
  have hzero : ∀ rest, Nat.toDigits 10 n = '0' :: rest → rest = [] :=
    fun _ h => toDigits_eq_zero_cons h
  have htake := takeDigits_append hdigits hr
  unfold takeNumeral?
  rw [htake]
  cases ht : Nat.toDigits 10 n with
  | nil => exact absurd ht (List.ne_nil_of_length_pos Nat.length_toDigits_pos)
  | cons c tail =>
    rw [ht] at hdigits hzero
    rw [List.forall_mem_cons] at hdigits
    rw [List.map_cons]
    split
    · next h => cases h
    · next h =>
      obtain ⟨h, -⟩ := Prod.mk.inj h
      obtain ⟨hc, h⟩ := List.cons.inj h
      cases hzero tail (by rw [digitValue_eq_zero hdigits.1 hc])
      cases h
    · next h =>
      obtain ⟨rfl, rfl⟩ := Prod.mk.inj h
      cases hr <;> rfl

/-- The digits of an integer of 64 bits, with or without a sign, are its value. -/
theorem value?_toDigits {n : Int} (hl : Int64.minValue.toInt ≤ n) (hu : n < UInt64.size) :
    ({ negative := decide (n < 0), whole := (Nat.toDigits 10 n.natAbs).map digitValue
       fraction := none, exponent := none } : Numeral).value? = some (.integer n) := by
  have hmagnitude : ((Nat.toDigits 10 n.natAbs).map digitValue).foldl
      (fun value d => value * 10 + d) 0 = n.natAbs := by
    rw [foldl_digitValue, Nat.ofDigitChars_ten_toDigits]
  unfold Numeral.value?
  dsimp only
  rw [hmagnitude]
  by_cases hn : n < 0
  · have habs : -Int.ofNat n.natAbs = n := by
      rw [Int.ofNat_eq_natCast]
      omega
    rw [if_pos (decide_eq_true hn), if_neg (by omega), habs, if_pos hl]
  · have habs : Int.ofNat n.natAbs = n := by
      rw [Int.ofNat_eq_natCast]
      omega
    rw [if_neg (by simpa using hn), if_pos (by omega), habs]

theorem takeValue?_of_isDigit {c : Char} (hc : c.isDigit = true) (fuel : Nat) (rest : List Char) :
    takeValue? (fuel + 1) (c :: rest) =
      (takeNumeral? false (c :: rest)).map fun (n, rest) => (.number n.value?, rest) := by
  rw [takeValue?]
  all_goals
    rintro _ h
    cases h
    cases hc

/-- The text of an integer of 64 bits is read as that integer. -/
theorem takeValue?_integer {n : Int} (hl : Int64.minValue.toInt ≤ n) (hu : n < UInt64.size)
    (fuel : Nat) {rest : List Char} (hr : Follows rest) :
    takeValue? (fuel + 1) ((toString n).toList ++ rest) =
      some (.number (some (.integer n)), rest) := by
  have hvalue := value?_toDigits hl hu
  rw [Binary64.toList_toString]
  by_cases hn : n < 0
  · rw [decide_eq_true hn] at hvalue
    rw [if_pos hn]
    show (takeNumeral? true (Nat.toDigits 10 n.natAbs ++ rest)).map _ = _
    rw [takeNumeral?_toDigits true n.natAbs hr, Option.map_some]
    dsimp only
    rw [hvalue]
  · rw [decide_eq_false hn] at hvalue
    rw [if_neg hn]
    have hdigits := Binary64.isDigit_toDigits n.natAbs
    have htake := takeNumeral?_toDigits false n.natAbs hr
    cases ht : Nat.toDigits 10 n.natAbs with
    | nil => exact absurd ht (List.ne_nil_of_length_pos Nat.length_toDigits_pos)
    | cons c tail =>
      rw [ht] at hdigits htake hvalue
      rw [List.cons_append] at htake ⊢
      rw [takeValue?_of_isDigit (hdigits c List.mem_cons_self), htake, Option.map_some]
      dsimp only
      rw [hvalue]

/-! ## 3. Strings -/

theorem hexValue?_hexDigit : ∀ n < 16, hexValue? (hexDigit n) = some n := by decide

/-- A character, as it is written in a string, is read as its code point. -/
theorem takeString?_escape (c : Char) (rest : List Char) :
    takeString? (escape c ++ rest) =
      (takeString? rest).map fun (units, rest) => (c.toNat :: units, rest) := by
  unfold escape
  split
  case h_8 hq hb _ _ _ _ _ =>
    split
    · next hc =>
      have hhigh := hexValue?_hexDigit (c.toNat / 16) (by omega)
      have hlow := hexValue?_hexDigit (c.toNat % 16) (by omega)
      have hzero : hexValue? '0' = some 0 := rfl
      have hunit : ((0 * 16 + 0) * 16 + c.toNat / 16) * 16 + c.toNat % 16 = c.toNat := by omega
      simp only [List.cons_append, List.nil_append, takeString?, takeHex?, hzero, hhigh, hlow,
        Option.bind_eq_bind, Option.bind_some, hunit]
      cases takeString? rest <;> rfl
    · next hc =>
      have hplain : ¬ (c.toNat < 32 ∨ c = '\\') := not_or.mpr ⟨hc, hb⟩
      rw [List.singleton_append, takeString?, if_neg hplain]
      · cases takeString? rest <;> rfl
      · exact hq
      · intro _ _ _ _ _ he
        exact absurd he hb
      · intro _ _ he
        exact absurd he hb
  all_goals
    simp only [List.cons_append, List.nil_append, takeString?, Option.bind_eq_bind,
      Option.bind_some]
    cases takeString? rest <;> rfl

theorem takeString?_flatMap (cs rest : List Char) :
    takeString? (cs.flatMap escape ++ '"' :: rest) = some (cs.map Char.toNat, rest) := by
  induction cs with
  | nil => rfl
  | cons c cs ih =>
    rw [List.flatMap_cons, List.append_assoc, takeString?_escape, ih]
    rfl

/-- A code point is its character. -/
theorem ofUnits?_map_toNat (cs : List Char) : ofUnits? (cs.map Char.toNat) = some cs := by
  induction cs with
  | nil => rfl
  | cons c cs ih =>
    have hvalid : c.toNat < 0xD800 ∨ 0xDFFF < c.toNat ∧ c.toNat < 0x110000 := c.valid
    rw [List.map_cons, ofUnits?.eq_def]
    dsimp only
    rw [if_neg (by omega), if_neg (by omega), ih, Option.map_some, Char.ofNat_toNat]

theorem toList_quote (s : String) :
    (quote s).toList = '"' :: (s.toList.flatMap escape ++ ['"']) := by
  rw [quote, String.toList_ofList, List.cons_append]

theorem takeValue?_quote (s : String) (fuel : Nat) (rest : List Char) :
    takeValue? (fuel + 1) ((quote s).toList ++ rest) = some (.string (some s), rest) := by
  rw [toList_quote, List.cons_append, List.append_assoc, List.singleton_append, takeValue?,
    takeString?_flatMap]
  simp only [Option.bind_eq_bind, Option.bind_some, ofUnits?_map_toNat, Option.map_some,
    String.ofList_toList]

/-! ## 4. Values -/

/-- The text of a number is read as that number, wherever it stands. -/
def Number.Exact (n : Number) : Prop :=
  ∀ fuel rest, Follows rest →
    takeValue? (fuel + 1) (n.text.toList ++ rest) = some (.number (some n), rest)

/-- The texts of all numbers in a value are read as these numbers. -/
inductive Exact : Json → Prop where
  | null : Exact .null
  | boolean (b : Bool) : Exact (.boolean b)
  | number {n : Number} (h : n.Exact) : Exact (.number n)
  | string (s : String) : Exact (.string s)
  | array {items : List Json} (h : ∀ item ∈ items, Exact item) : Exact (.array items)
  | object {members : Members} (h : ∀ member ∈ members, Exact member.2) : Exact (.object members)

attribute [simp] Exact.null Exact.boolean Exact.string

@[simp] theorem exact_number_iff {n : Number} : Exact (.number n) ↔ n.Exact := by
  constructor
  · rintro (_ | _ | h)
    exact h
  · exact .number

@[simp] theorem exact_array_iff {items : List Json} :
    Exact (.array items) ↔ ∀ item ∈ items, item.Exact := by
  constructor
  · rintro (_ | _ | _ | _ | h)
    exact h
  · exact .array

@[simp] theorem exact_object_iff {members : Members} :
    Exact (.object members) ↔ ∀ member ∈ members, member.2.Exact := by
  constructor
  · rintro (_ | _ | _ | _ | _ | h)
    exact h
  · exact .object

/-- The texts of integers of 64 bits, with or without a sign, are exact. -/
theorem Number.exact_integer {n : Int} (hl : Int64.minValue.toInt ≤ n) (hu : n < UInt64.size) :
    (Number.integer n).Exact :=
  fun fuel _ hr => takeValue?_integer hl hu fuel hr

theorem exact_ofInt {n : Int} (hl : Int64.minValue.toInt ≤ n) (hu : n < UInt64.size) :
    (ofInt n).Exact :=
  .number (Number.exact_integer hl hu)

theorem exact_ofNat {n : Nat} (hn : n < UInt64.size) : (ofNat n).Exact := by
  have hl : Int64.minValue.toInt ≤ (0 : Int) := by decide
  exact exact_ofInt (Int.le_trans hl (Int.natCast_nonneg n)) (Int.ofNat_lt.mpr hn)

/-- The text of a value is read as that value, wherever it stands, if there is fuel for each of its
characters. -/
def ReadsBack (json : Json) : Prop :=
  ∀ fuel rest, Follows rest → 2 * json.text.toList.length + 1 ≤ fuel →
    takeValue? fuel (json.text.toList ++ rest) = some (.ofJson json, rest)

/-- The texts of values, with commas between them. -/
def joined (texts : List String) : List Char :=
  [','].intercalate (texts.map String.toList)

theorem toList_bracket (opening closing : String) (texts : List String) :
    (bracket opening texts closing).toList =
      opening.toList ++ joined texts ++ closing.toList := by
  rw [bracket, String.toList_append, String.toList_append, String.toList_intercalate]
  rfl

@[simp] theorem joined_singleton (text : String) : joined [text] = text.toList := by
  simp [joined]

theorem joined_cons_cons (text next : String) (rest : List String) :
    joined (text :: next :: rest) = text.toList ++ ',' :: joined (next :: rest) := by
  simp [joined, List.intercalate_cons_cons]

theorem takeItems?_joined {items : List Json} (h : ∀ item ∈ items, item.ReadsBack)
    (hne : items ≠ []) (fuel : Nat) (rest : List Char)
    (hf : 2 * (joined (itemTexts items)).length + 2 ≤ fuel) :
    takeItems? fuel (joined (itemTexts items) ++ ']' :: rest) =
      some (Written.ofItems items, rest) := by
  induction items generalizing fuel with
  | nil => exact absurd rfl hne
  | cons item items ih =>
    rw [List.forall_mem_cons] at h
    obtain ⟨fuel, rfl⟩ : ∃ less, fuel = less + 1 := ⟨fuel - 1, by omega⟩
    rw [takeItems?]
    cases items with
    | nil =>
      rw [itemTexts, itemTexts, joined_singleton] at hf ⊢
      rw [h.1 fuel _ (.bracket rest) (by omega)]
      rfl
    | cons next items =>
      rw [itemTexts, itemTexts, joined_cons_cons, ← itemTexts] at hf ⊢
      rw [List.length_append, List.length_cons] at hf
      rw [List.append_assoc, List.cons_append, h.1 fuel _ (.comma _) (by omega)]
      have hrest := ih h.2 (List.cons_ne_nil _ _) fuel (by omega)
      obtain ⟨_, _, hfirst⟩ := exists_takeValue?_of_takeItems? hrest
      have hcomma : ∀ more, skipBlank (',' :: more) = ',' :: more := fun _ => rfl
      simp only [Option.bind_eq_bind, Option.bind_some, hcomma, skipBlank_of_takeValue? hfirst,
        hrest]
      rfl

/-- The text of a member: the key between quotes, a colon and the value. -/
theorem toList_member (key : String) (value : Json) :
    (quote key ++ ":" ++ value.text).toList =
      '"' :: (key.toList.flatMap escape ++ '"' :: ':' :: value.text.toList) := by
  rw [String.toList_append, String.toList_append, toList_quote]
  simp

theorem skipBlank_of_readsBack {value : Json} (h : value.ReadsBack) {rest : List Char}
    (hr : Follows rest) : skipBlank (value.text.toList ++ rest) = value.text.toList ++ rest :=
  skipBlank_of_takeValue? (h _ rest hr (Nat.le_refl _))

/-- A member is read, and after it the closing brace, or a comma and more members. -/
theorem takeMembers?_cons (key : String) {value : Json} (h : value.ReadsBack) {fuel : Nat}
    (hf : 2 * value.text.toList.length + 1 ≤ fuel) {rest more : List Char}
    {members : List (Option String × Written)}
    (hm : rest = '\x7d' :: more ∧ members = [] ∨
      ∃ next, rest = ',' :: next ∧ takeMembers? fuel (skipBlank next) = some (members, more)) :
    takeMembers? (fuel + 1) ((quote key ++ ":" ++ value.text).toList ++ rest) =
      some ((some key, .ofJson value) :: members, more) := by
  have hcolon : ∀ more, skipBlank (':' :: more) = ':' :: more := fun _ => rfl
  have hr : Follows rest := by
    rcases hm with ⟨rfl, -⟩ | ⟨next, rfl, -⟩
    · exact .brace more
    · exact .comma next
  rw [toList_member, List.cons_append, List.append_assoc, List.cons_append, List.cons_append,
    takeMembers?, takeString?_flatMap]
  simp only [Option.bind_eq_bind, Option.bind_some, ofUnits?_map_toNat, Option.map_some,
    String.ofList_toList, hcolon, skipBlank_of_readsBack h hr, h fuel rest hr hf]
  rcases hm with ⟨rfl, rfl⟩ | ⟨next, rfl, hm⟩
  · rfl
  · have hcomma : skipBlank (',' :: next) = ',' :: next := rfl
    simp only [hcomma, hm]
    rfl

theorem skipBlank_of_takeMembers? {fuel : Nat} {cs : List Char}
    {read : List (Option String × Written) × List Char} (h : takeMembers? fuel cs = some read) :
    skipBlank cs = cs := by
  cases fuel with
  | zero => cases h
  | succ fuel =>
    unfold takeMembers? at h
    split at h
    · rfl
    · cases h

theorem takeMembers?_joined {members : Members} (h : ∀ member ∈ members, member.2.ReadsBack)
    (hne : members ≠ []) (fuel : Nat) (rest : List Char)
    (hf : 2 * (joined (memberTexts members)).length + 2 ≤ fuel) :
    takeMembers? fuel (joined (memberTexts members) ++ '\x7d' :: rest) =
      some (Written.ofMembers members, rest) := by
  induction members generalizing fuel with
  | nil => exact absurd rfl hne
  | cons member members ih =>
    obtain ⟨key, value⟩ := member
    rw [List.forall_mem_cons] at h
    have hvalue : value.ReadsBack := h.1
    obtain ⟨fuel, rfl⟩ : ∃ less, fuel = less + 1 := ⟨fuel - 1, by omega⟩
    have hlength : value.text.toList.length ≤ (quote key ++ ":" ++ value.text).toList.length := by
      rw [String.toList_append, List.length_append]
      omega
    cases members with
    | nil =>
      rw [memberTexts, memberTexts, joined_singleton] at hf ⊢
      exact takeMembers?_cons key hvalue (by omega) (Or.inl ⟨rfl, rfl⟩)
    | cons next members =>
      obtain ⟨nextKey, nextValue⟩ := next
      rw [memberTexts, memberTexts, joined_cons_cons, ← memberTexts] at hf ⊢
      rw [List.length_append, List.length_cons] at hf
      have hrest := ih h.2 (List.cons_ne_nil _ _) fuel (by omega)
      rw [List.append_assoc, List.cons_append]
      refine takeMembers?_cons key hvalue (by omega) (Or.inr ⟨_, rfl, ?_⟩)
      rw [skipBlank_of_takeMembers? hrest]
      exact hrest

theorem takeValue?_array {items : List Json} (h : ∀ item ∈ items, item.ReadsBack) {fuel : Nat}
    (hf : 2 * (joined (itemTexts items)).length + 2 ≤ fuel) (rest : List Char) :
    takeValue? (fuel + 1) ('[' :: (joined (itemTexts items) ++ ']' :: rest)) =
      some (.array (Written.ofItems items), rest) := by
  by_cases hne : items = []
  · subst hne
    rfl
  · have hread := takeItems?_joined h hne fuel rest hf
    obtain ⟨less, first, hfirst⟩ := exists_takeValue?_of_takeItems? hread
    rw [takeValue?, skipBlank_of_takeValue? hfirst]
    split
    · next hc =>
      rw [hc, takeValue?_eq_none (by simp)] at hfirst
      cases hfirst
    · rw [hread]
      rfl

theorem takeValue?_object {members : Members} (h : ∀ member ∈ members, member.2.ReadsBack)
    {fuel : Nat} (hf : 2 * (joined (memberTexts members)).length + 2 ≤ fuel) (rest : List Char) :
    takeValue? (fuel + 1) ('\x7b' :: (joined (memberTexts members) ++ '\x7d' :: rest)) =
      some (.object (Written.ofMembers members), rest) := by
  by_cases hne : members = []
  · subst hne
    rfl
  · have hread := takeMembers?_joined h hne fuel rest hf
    rw [takeValue?, skipBlank_of_takeMembers? hread]
    split
    · next hc =>
      rw [hc] at hread
      cases fuel <;> cases hread
    · rw [hread]
      rfl

/-- The text of a value is read as that value. -/
theorem readsBack_of_exact {json : Json} (hx : json.Exact) : json.ReadsBack := by
  induction json with
  | null =>
    intro fuel rest _ hf
    obtain ⟨fuel, rfl⟩ : ∃ less, fuel = less + 1 := ⟨fuel - 1, by omega⟩
    rfl
  | boolean b =>
    intro fuel rest _ hf
    obtain ⟨fuel, rfl⟩ : ∃ less, fuel = less + 1 := ⟨fuel - 1, by omega⟩
    cases b <;> rfl
  | number n =>
    intro fuel rest hr hf
    obtain ⟨fuel, rfl⟩ : ∃ less, fuel = less + 1 := ⟨fuel - 1, by omega⟩
    exact exact_number_iff.mp hx fuel rest hr
  | string s =>
    intro fuel rest hr hf
    obtain ⟨fuel, rfl⟩ : ∃ less, fuel = less + 1 := ⟨fuel - 1, by omega⟩
    exact takeValue?_quote s fuel rest
  | array items ih =>
    intro fuel rest hr hf
    obtain ⟨fuel, rfl⟩ : ∃ less, fuel = less + 1 := ⟨fuel - 1, by omega⟩
    have hitems : ∀ item ∈ items, item.ReadsBack :=
      fun item hm => ih item hm (exact_array_iff.mp hx item hm)
    have htext : (Json.array items).text.toList = '[' :: (joined (itemTexts items) ++ [']']) := by
      rw [text, toList_bracket]
      rfl
    rw [htext] at hf ⊢
    rw [List.length_cons, List.length_append] at hf
    rw [List.cons_append, List.append_assoc, List.singleton_append, Written.ofJson]
    exact takeValue?_array hitems (by omega) rest
  | object members ih =>
    intro fuel rest hr hf
    obtain ⟨fuel, rfl⟩ : ∃ less, fuel = less + 1 := ⟨fuel - 1, by omega⟩
    have hmembers : ∀ member ∈ members, member.2.ReadsBack :=
      fun member hm => ih member hm (exact_object_iff.mp hx member hm)
    have htext : (Json.object members).text.toList =
        '\x7b' :: (joined (memberTexts members) ++ ['\x7d']) := by
      rw [text, toList_bracket]
      rfl
    rw [htext] at hf ⊢
    rw [List.length_cons, List.length_append] at hf
    rw [List.cons_append, List.append_assoc, List.singleton_append, Written.ofJson]
    exact takeValue?_object hmembers (by omega) rest

/-- The text of a value says what is written of it. -/
theorem Written.read?_text {json : Json} (hx : json.Exact) :
    read? json.text = some (ofJson json) := by
  have hread := readsBack_of_exact hx (2 * json.text.toList.length + 2) [] .nil (by omega)
  rw [List.append_nil] at hread
  unfold read?
  dsimp only
  rw [skipBlank_of_takeValue? hread, hread]
  rfl

/-- The text of a value is read as that value, if no key stands twice in it and it is no deeper than
a text may be. -/
theorem read?_text {json : Json} (hk : json.Keyed) (hx : json.Exact)
    (hd : (Written.ofJson json).depth ≤ depthLimit) : read? json.text = some json := by
  rw [read?, Written.read?_text hx]
  exact (if_pos hd).trans (Written.keep?_ofJson hk)

end GraphQL.Json
