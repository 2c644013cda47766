import GraphQL.Json.Written

/-!
# `GraphQL/Proofs/Json/Keyed.lean` — values in which no key stands twice

A JSON object is a table: it has each key once. The type of values does not say so, since members
are a list, and so it is said here, for an object and everything inside it (`Json.Keyed`). It is
what reading needs: a repeated key loses its first entry, and where no key is repeated nothing is
lost (`Json.Written.keep?_ofJson`).
-/

set_option autoImplicit false

namespace GraphQL

/-! ## 1. Tables -/

namespace Entries

variable {α β : Type}

theorem get?_map (f : α → β) (table : Entries α) (key : String) :
    get? (table.map fun entry => (entry.1, f entry.2)) key = (get? table key).map f := by
  induction table with
  | nil => rfl
  | cons entry rest ih =>
    simp only [List.map_cons, get?, ih]
    split <;> rfl

theorem mem_of_get? {table : Entries α} {key : String} {entry : α}
    (h : get? table key = some entry) : (key, entry) ∈ table := by
  induction table with
  | nil => cases h
  | cons head rest ih =>
    obtain ⟨k, e⟩ := head
    by_cases hk : k = key
    · subst hk
      simp only [get?, if_true, Option.some.injEq] at h
      exact h ▸ List.mem_cons_self
    · simp only [get?, hk, if_false] at h
      exact List.mem_cons_of_mem _ (ih h)

theorem mem_keys_of_get? {table : Entries α} {key : String} {entry : α}
    (h : get? table key = some entry) : key ∈ table.keys :=
  List.mem_map_of_mem (mem_of_get? h)

/-- Where no key stands twice, each entry is the one of its key. -/
theorem get?_of_mem {table : Entries α} (hn : table.keys.Nodup) {key : String} {entry : α}
    (hm : (key, entry) ∈ table) : get? table key = some entry := by
  induction table with
  | nil => cases hm
  | cons pair rest ih =>
    rw [keys, List.map_cons, List.nodup_cons] at hn
    rw [get?]
    rcases List.mem_cons.mp hm with rfl | hm
    · rw [if_pos rfl]
    · rw [if_neg, ih hn.2 hm]
      intro hk
      rw [hk] at hn
      exact hn.1 (List.mem_map.mpr ⟨_, hm, rfl⟩)

theorem get?_append (before after : Entries α) (wanted : String) :
    get? (before ++ after) wanted = (get? before wanted).or (get? after wanted) := by
  induction before with
  | nil => rfl
  | cons entry rest ih =>
    rw [List.cons_append, get?, get?, ih]
    split <;> rfl

end Entries

/-! ## 2. Values -/

/-- Induction over a JSON value: into all parts of it at once. -/
@[induction_eliminator]
theorem Json.induct {P : Json → Prop} (null : P .null) (boolean : ∀ b, P (.boolean b))
    (number : ∀ n, P (.number n)) (string : ∀ s, P (.string s))
    (array : ∀ items, (∀ item ∈ items, P item) → P (.array items))
    (object : ∀ members, (∀ member ∈ members, P member.2) → P (.object members)) (json : Json) :
    P json := by
  refine @Json.rec P (fun items => ∀ item ∈ items, P item)
    (fun members => ∀ member ∈ members, P member.2) (fun member => P member.2)
    null boolean number string array object ?_ ?_ ?_ ?_ ?_ json
  · exact List.forall_mem_nil _
  · exact fun _ _ hHead hRest => List.forall_mem_cons.mpr ⟨hHead, hRest⟩
  · exact List.forall_mem_nil _
  · exact fun _ _ hHead hRest => List.forall_mem_cons.mpr ⟨hHead, hRest⟩
  · exact fun _ _ h => h

/-- No object in a value has a key twice. -/
inductive Json.Keyed : Json → Prop where
  | null : Keyed .null
  | boolean (b : Bool) : Keyed (.boolean b)
  | number (n : Json.Number) : Keyed (.number n)
  | string (s : String) : Keyed (.string s)
  | array {items : List Json} (h : ∀ item ∈ items, Keyed item) : Keyed (.array items)
  | object {members : Json.Members} (hd : members.keys.Nodup)
    (h : ∀ member ∈ members, Keyed member.2) : Keyed (.object members)

attribute [simp] Json.Keyed.null Json.Keyed.boolean Json.Keyed.number Json.Keyed.string

@[simp] theorem Json.keyed_array_iff {items : List Json} :
    Keyed (.array items) ↔ ∀ item ∈ items, item.Keyed := by
  constructor
  · rintro (_ | _ | _ | _ | h)
    exact h
  · exact .array

@[simp] theorem Json.keyed_object_iff {members : Members} :
    Keyed (.object members) ↔ members.keys.Nodup ∧ ∀ member ∈ members, member.2.Keyed := by
  constructor
  · rintro (_ | _ | _ | _ | _ | ⟨hd, h⟩)
    exact ⟨hd, h⟩
  · rintro ⟨hd, h⟩
    exact .object hd h

namespace Json.Written

theorem ofItems_eq_map (items : List Json) : ofItems items = items.map ofJson := by
  induction items with
  | nil => rfl
  | cons item rest ih => rw [ofItems, ih, List.map_cons]

theorem keepItems?_ofItems {items : List Json}
    (h : ∀ item ∈ items, keep? (ofJson item) = some item) :
    keepItems? (ofItems items) = some items := by
  induction items with
  | nil => rfl
  | cons item rest ih =>
    rw [List.forall_mem_cons] at h
    rw [ofItems, keepItems?, h.1, ih h.2]
    rfl

theorem keepMembers?_ofMembers {members : Members}
    (h : ∀ member ∈ members, keep? (ofJson member.2) = some member.2) :
    keepMembers? (ofMembers members) = some members := by
  induction members with
  | nil => rfl
  | cons member rest ih =>
    obtain ⟨key, value⟩ := member
    rw [List.forall_mem_cons] at h
    rw [ofMembers, keepMembers?, h.1, ih h.2]
    rfl

/-- What is written of a value in which no key stands twice has that value. -/
theorem keep?_ofJson {json : Json} (hk : json.Keyed) : keep? (ofJson json) = some json := by
  induction json with
  | null => rfl
  | boolean b => rfl
  | number n => rfl
  | string s => rfl
  | array items ih =>
    have hitems := keyed_array_iff.mp hk
    rw [ofJson, keep?, keepItems?_ofItems fun item hm => ih item hm (hitems item hm)]
    rfl
  | object members ih =>
    obtain ⟨hd, hmembers⟩ := keyed_object_iff.mp hk
    rw [ofJson, keep?, keepMembers?_ofMembers fun member hm => ih member hm (hmembers member hm),
      Option.map_some, Entries.ofList_of_nodup hd]

end Json.Written

end GraphQL
