import GraphQL.Proofs.Input.Numerals
import GraphQL.Proofs.Json.Keyed
import GraphQL.Value.Json

/-!
# `GraphQL/Proofs/Json/Values.lean` — values and JSON correspond

Variables, defaults in introspection and all leaves of an answer go from values to JSON or back. The
two directions are written down apart, and each gives up something: an object or an infinite number
has no JSON form, and an integer beyond 64 bits is no value. This file says what is lost, and that
it is nothing else (`Value.json_correspondence`):

* a value comes back from its JSON form as itself, with null in the place of what has no form
  (`Value.blanked`), and so it comes back unchanged exactly if there is no such thing in it
  (`Value.Plain`);
* JSON comes back from its value unchanged exactly if its integers fit 64 bits
  (`Json.FitsInt64`).

Each fact is one induction, and the lists inside are maps: nothing in them can be lost, added or
moved.
-/

set_option autoImplicit false

namespace GraphQL

/-- A map leaves a list alone exactly if it leaves each of its members alone. -/
theorem map_eq_self_iff {α : Type} {f : α → α} {l : List α} :
    l.map f = l ↔ ∀ a ∈ l, f a = a := by
  have h : l.map f = l.map id ↔ ∀ a ∈ l, f a = id a := List.map_eq_map_iff
  rwa [List.map_id] at h

/-! ## 1. Values -/

namespace Value

/-- Induction over a value: into all parts of it at once. -/
@[induction_eliminator]
theorem induct {P : Value → Prop} (null : P .null) (boolean : ∀ b, P (.boolean b))
    (int : ∀ n, P (.int n)) (float : ∀ x, P (.float x)) (string : ∀ s, P (.string s))
    (list : ∀ items, (∀ item ∈ items, P item) → P (.list items))
    (map : ∀ entries, (∀ entry ∈ entries, P entry.2) → P (.map entries))
    (object : ∀ ref, P (.object ref)) (value : Value) : P value := by
  refine @Value.rec P (fun items => ∀ item ∈ items, P item)
    (fun entries => ∀ entry ∈ entries, P entry.2) (fun entry => P entry.2)
    null boolean int float string list map object ?_ ?_ ?_ ?_ ?_ value
  · exact List.forall_mem_nil _
  · exact fun _ _ hHead hRest => List.forall_mem_cons.mpr ⟨hHead, hRest⟩
  · exact List.forall_mem_nil _
  · exact fun _ _ hHead hRest => List.forall_mem_cons.mpr ⟨hHead, hRest⟩
  · exact fun _ _ h => h

/-- Everything in a value has a JSON form: there are no objects in it, and no floating-point numbers
that are not finite. -/
inductive Plain : Value → Prop where
  | null : Plain .null
  | boolean (b : Bool) : Plain (.boolean b)
  | int (n : Int64) : Plain (.int n)
  | float {x : Float} (hx : Binary64.isFinite x = true) : Plain (.float x)
  | string (s : String) : Plain (.string s)
  | list {items : List Value} (h : ∀ item ∈ items, Plain item) : Plain (.list items)
  | map {entries : Entries Value} (h : ∀ entry ∈ entries, Plain entry.2) : Plain (.map entries)

attribute [simp] Plain.null Plain.boolean Plain.int Plain.string

@[simp] theorem plain_float_iff {x : Float} :
    Plain (.float x) ↔ Binary64.isFinite x = true := by
  constructor
  · intro h
    cases h with
    | float hx => exact hx
  · exact .float

@[simp] theorem plain_list_iff {items : List Value} :
    Plain (.list items) ↔ ∀ item ∈ items, item.Plain := by
  constructor
  · intro h
    cases h with
    | list h => exact h
  · exact .list

@[simp] theorem plain_map_iff {entries : Entries Value} :
    Plain (.map entries) ↔ ∀ entry ∈ entries, entry.2.Plain := by
  constructor
  · intro h
    cases h with
    | map h => exact h
  · exact .map

theorem not_plain_object (ref : ObjectRef) : ¬ Plain (.object ref) := by
  intro h
  cases h

mutual

/-- A value with null in the place of each object and of each floating-point number that is not
finite. -/
def blanked : Value → Value
  | .float x => if Binary64.isFinite x then .float x else .null
  | .list items => .list (blankedItems items)
  | .map entries => .map (blankedEntries entries)
  | .object _ => .null
  | value => value

/-- The items of a list, each by itself. -/
def blankedItems : List Value → List Value
  | [] => []
  | item :: rest => blanked item :: blankedItems rest

/-- The entries of a map, each under its key. -/
def blankedEntries : List (String × Value) → List (String × Value)
  | [] => []
  | (key, value) :: rest => (key, blanked value) :: blankedEntries rest

end

theorem blankedItems_eq_map (items : List Value) : blankedItems items = items.map blanked := by
  induction items with
  | nil => rfl
  | cons item rest ih => rw [blankedItems, ih, List.map_cons]

theorem blankedEntries_eq_map (entries : Entries Value) :
    blankedEntries entries = entries.map fun e => (e.1, e.2.blanked) := by
  induction entries with
  | nil => rfl
  | cons entry rest ih =>
    obtain ⟨key, value⟩ := entry
    rw [blankedEntries, ih, List.map_cons]

/-- Nothing has to be blanked exactly in a value that is plain. -/
theorem blanked_eq_self_iff {value : Value} : value.blanked = value ↔ value.Plain := by
  induction value with
  | null | boolean | int | string => simp [blanked]
  | float x =>
    rw [blanked, plain_float_iff]
    by_cases hx : Binary64.isFinite x = true <;> simp [hx]
  | list items ih =>
    rw [blanked, blankedItems_eq_map, list.injEq, map_eq_self_iff, plain_list_iff]
    exact forall₂_congr ih
  | map entries ih =>
    rw [blanked, blankedEntries_eq_map, map.injEq, map_eq_self_iff, plain_map_iff]
    refine forall₂_congr fun entry hm => ?_
    rw [Prod.ext_iff, ← ih entry hm]
    simp
  | object ref =>
    rw [blanked]
    constructor
    · intro h
      cases h
    · intro h
      exact absurd h (not_plain_object ref)

/-- A value comes back from its JSON form with null where it has none. -/
theorem ofJson_toJson (value : Value) : ofJson value.toJson = value.blanked := by
  induction value with
  | null | boolean | string | object => rfl
  | int n => rw [toJson, Json.ofInt, ofJson, ofNumber, int64?_toInt, blanked] <;> simp
  | float x =>
    rw [toJson, blanked]
    by_cases hx : Binary64.isFinite x = true
    · rw [if_pos hx, ofJson_ofFloat hx]
    · rw [if_neg hx, Json.ofFloat, FiniteFloat.of?, dif_neg hx, ofJson]
  | list items ih =>
    rw [toJson, ofJson, blanked, itemsToJson_eq_map, itemsOfJson_eq_map, blankedItems_eq_map,
      List.map_map]
    exact congrArg list (List.map_congr_left ih)
  | map entries ih =>
    rw [toJson, ofJson, blanked, entriesToJson_eq_map, entriesOfJson_eq_map, blankedEntries_eq_map,
      List.map_map]
    exact congrArg map (List.map_congr_left fun entry hm => Prod.ext rfl (ih entry hm))

end Value

/-! ## 2. JSON -/

/-- The integers in JSON fit 64 bits with sign. -/
inductive Json.FitsInt64 : Json → Prop where
  | null : FitsInt64 .null
  | boolean (b : Bool) : FitsInt64 (.boolean b)
  | integer {n : Int} (hl : Int64.minValue.toInt ≤ n) (hu : n ≤ Int64.maxValue.toInt) :
    FitsInt64 (.number (.integer n))
  | float (x : FiniteFloat) : FitsInt64 (.number (.float x))
  | string (s : String) : FitsInt64 (.string s)
  | array {items : List Json} (h : ∀ item ∈ items, FitsInt64 item) : FitsInt64 (.array items)
  | object {members : Members} (h : ∀ member ∈ members, FitsInt64 member.2) :
    FitsInt64 (.object members)

attribute [simp] Json.FitsInt64.null Json.FitsInt64.boolean Json.FitsInt64.float
  Json.FitsInt64.string

namespace Json

@[simp] theorem fitsInt64_integer_iff {n : Int} :
    FitsInt64 (.number (.integer n)) ↔
      Int64.minValue.toInt ≤ n ∧ n ≤ Int64.maxValue.toInt := by
  constructor
  · intro h
    cases h with
    | integer hl hu => exact ⟨hl, hu⟩
  · rintro ⟨hl, hu⟩
    exact .integer hl hu

@[simp] theorem fitsInt64_array_iff {items : List Json} :
    FitsInt64 (.array items) ↔ ∀ item ∈ items, item.FitsInt64 := by
  constructor
  · intro h
    cases h with
    | array h => exact h
  · exact .array

@[simp] theorem fitsInt64_object_iff {members : Members} :
    FitsInt64 (.object members) ↔ ∀ member ∈ members, member.2.FitsInt64 := by
  constructor
  · intro h
    cases h with
    | object h => exact h
  · exact .object

/-- What a floating-point number becomes is no integer. -/
theorem ofFloat_ne_integer (x : Float) (n : Int) : ofFloat x ≠ .number (.integer n) := by
  unfold ofFloat
  split <;> simp

theorem ofFloat_val (x : FiniteFloat) : ofFloat x.val = .number (.float x) := by
  rw [ofFloat, FiniteFloat.of?, dif_pos x.finite]

end Json

namespace Value

theorem toInt_ofInt_of_fits {n : Int}
    (hn : Int64.minValue.toInt ≤ n ∧ n ≤ Int64.maxValue.toInt) : (Int64.ofInt n).toInt = n := by
  have hmax : Int64.maxValue.toInt = 2 ^ 63 - 1 := by decide
  have hupper := hn.2
  rw [hmax] at hupper
  exact Int64.toInt_ofInt_of_le hn.1 (by omega)

/-- JSON comes back from its value unchanged exactly if its integers fit 64 bits. -/
theorem toJson_ofJson_iff {json : Json} : (ofJson json).toJson = json ↔ json.FitsInt64 := by
  induction json with
  | null | boolean | string => simp [ofJson, toJson]
  | number n =>
    rw [ofJson]
    cases n with
    | integer n =>
      rw [ofNumber, Json.fitsInt64_integer_iff, int64?]
      by_cases hn : Int64.minValue.toInt ≤ n ∧ n ≤ Int64.maxValue.toInt
      · rw [if_pos hn]
        dsimp only
        rw [toJson, toInt_ofInt_of_fits hn]
        exact iff_of_true rfl hn
      · rw [if_neg hn]
        exact iff_of_false (Json.ofFloat_ne_integer _ n) hn
    | float x => simp [ofNumber, toJson, Json.ofFloat_val]
  | array items ih =>
    rw [ofJson, toJson, itemsOfJson_eq_map, itemsToJson_eq_map, List.map_map, Json.array.injEq,
      map_eq_self_iff, Json.fitsInt64_array_iff]
    exact forall₂_congr ih
  | object members ih =>
    rw [ofJson, toJson, entriesOfJson_eq_map, entriesToJson_eq_map, List.map_map,
      Json.object.injEq, map_eq_self_iff, Json.fitsInt64_object_iff]
    refine forall₂_congr fun member hm => ?_
    rw [Prod.ext_iff, ← ih member hm]
    simp

/-- The JSON form of a value fits 64 bits. -/
theorem fitsInt64_toJson (value : Value) : value.toJson.FitsInt64 := by
  induction value with
  | null | boolean | string | object => simp [toJson]
  | int n =>
    rw [toJson, Json.ofInt, Json.fitsInt64_integer_iff]
    exact ⟨Int64.minValue_le_toInt n, Int64.toInt_le n⟩
  | float x =>
    rw [toJson, Json.ofFloat]
    split <;> simp
  | list items ih =>
    rw [toJson, itemsToJson_eq_map, Json.fitsInt64_array_iff]
    exact List.forall_mem_map.mpr ih
  | map entries ih =>
    rw [toJson, entriesToJson_eq_map, Json.fitsInt64_object_iff]
    exact List.forall_mem_map.mpr ih

/-- Values and JSON correspond. A value comes back from its JSON form as itself exactly if
everything in it has such a form, JSON comes back from its value exactly if its integers fit 64
bits, and any value at all keeps its JSON form: what comes back is the value with null in the place
of each object and each floating-point number that is not finite, and with all else where it was. -/
theorem json_correspondence :
    (∀ value : Value, ofJson value.toJson = value ↔ value.Plain) ∧
    (∀ json : Json, (ofJson json).toJson = json ↔ json.FitsInt64) ∧
    ∀ value : Value,
      (ofJson value.toJson).toJson = value.toJson ∧ ofJson value.toJson = value.blanked := by
  refine ⟨fun value => ?_, fun json => toJson_ofJson_iff, fun value => ⟨?_, ofJson_toJson value⟩⟩
  · rw [ofJson_toJson, blanked_eq_self_iff]
  · exact toJson_ofJson_iff.mpr value.fitsInt64_toJson

end Value

end GraphQL
