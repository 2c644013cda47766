import Mathlib.Data.List.Nodup
import GraphQL.Proofs.Json.Keyed

/-!
# `GraphQL/Proofs/Json/Kept.lean` — what is kept of what is written

A text may repeat a key. The value that is kept of it has each key once, in every object inside it
(`Json.Written.keyed_of_keep?`), and it is no deeper than what is written
(`Json.Written.depth_ofJson_le`): a repeated key can only lose entries. So a value that was read can
be written and read again, and there is nothing left that reading could drop.

Both are inductions over what is written, and what they need of a list of items or members is that
everything kept comes from something written (`forall_of_keepItems?`, `forall_of_keepMembers?`).
-/

set_option autoImplicit false

namespace GraphQL

/-! ## 1. Tables -/

namespace Entries

variable {α : Type}

theorem nodup_keys_put {table : Entries α} (h : table.keys.Nodup) (key : String) (entry : α) :
    (table.put key entry).keys.Nodup := by
  rw [keys_put]
  split
  · exact h
  · next absent =>
    rw [List.nodup_append]
    refine ⟨h, List.nodup_singleton key, ?_⟩
    intro other hm last hlast
    rw [List.mem_singleton.mp hlast]
    exact ne_of_mem_of_not_mem hm absent

theorem forall_put {P : α → Prop} {table : Entries α} (h : ∀ e ∈ table, P e.2) (key : String)
    {entry : α} (he : P entry) : ∀ e ∈ table.put key entry, P e.2 := by
  induction table with
  | nil => simpa using he
  | cons head rest ih =>
    rw [List.forall_mem_cons] at h
    rw [put]
    split
    · exact List.forall_mem_cons.mpr ⟨he, h.2⟩
    · exact List.forall_mem_cons.mpr ⟨h.1, ih h.2⟩

/-- What every `put` preserves holds of a table that is made of a list. -/
theorem ofList_induction {P : Entries α → Prop} {pairs : List (String × α)} (empty : P [])
    (put : ∀ table, P table → ∀ pair ∈ pairs, P (table.put pair.1 pair.2)) : P (ofList pairs) :=
  List.foldlRecOn pairs _ empty put

theorem nodup_keys_ofList (pairs : List (String × α)) : (ofList pairs).keys.Nodup := by
  refine ofList_induction (P := fun table => table.keys.Nodup) ?_ ?_
  · exact List.nodup_nil
  · intro table h pair _
    exact nodup_keys_put h pair.1 pair.2

theorem forall_ofList {P : α → Prop} {pairs : List (String × α)} (h : ∀ pair ∈ pairs, P pair.2) :
    ∀ e ∈ ofList pairs, P e.2 := by
  refine ofList_induction (P := fun table => ∀ e ∈ table, P e.2) ?_ ?_
  · exact List.forall_mem_nil _
  · intro table ht pair hm
    exact forall_put ht pair.1 (h pair hm)

end Entries

/-! ## 2. Values -/

namespace Json.Written

/-- Induction over what is written: into all parts of it at once. -/
@[induction_eliminator]
theorem induct {P : Written → Prop} (null : P .null) (boolean : ∀ b, P (.boolean b))
    (number : ∀ n, P (.number n)) (string : ∀ s, P (.string s))
    (array : ∀ items, (∀ item ∈ items, P item) → P (.array items))
    (object : ∀ members, (∀ member ∈ members, P member.2) → P (.object members))
    (written : Written) : P written := by
  refine @Written.rec P (fun items => ∀ item ∈ items, P item)
    (fun members => ∀ member ∈ members, P member.2) (fun member => P member.2)
    null boolean number string array object ?_ ?_ ?_ ?_ ?_ written
  · exact List.forall_mem_nil _
  · exact fun _ _ hHead hRest => List.forall_mem_cons.mpr ⟨hHead, hRest⟩
  · exact List.forall_mem_nil _
  · exact fun _ _ hHead hRest => List.forall_mem_cons.mpr ⟨hHead, hRest⟩
  · exact fun _ _ h => h

/-- Each value that is kept of items is that of one of them. -/
theorem forall_of_keepItems? {P : Json → Prop} {items : List Written} {values : List Json}
    (hk : keepItems? items = some values)
    (h : ∀ item ∈ items, ∀ value, item.keep? = some value → P value) : ∀ value ∈ values, P value := by
  induction items generalizing values with
  | nil =>
    cases hk
    exact List.forall_mem_nil _
  | cons item rest ih =>
    rw [List.forall_mem_cons] at h
    simp only [keepItems?, Option.bind_eq_bind, Option.bind_eq_some_iff] at hk
    obtain ⟨value, hvalue, values, hvalues, hk⟩ := hk
    cases hk
    exact List.forall_mem_cons.mpr ⟨h.1 value hvalue, ih hvalues h.2⟩

/-- Each value that is kept of members is that of one of them. -/
theorem forall_of_keepMembers? {P : Json → Prop} {members : List (Option String × Written)}
    {pairs : List (String × Json)} (hk : keepMembers? members = some pairs)
    (h : ∀ member ∈ members, ∀ value, member.2.keep? = some value → P value) :
    ∀ pair ∈ pairs, P pair.2 := by
  induction members generalizing pairs with
  | nil =>
    cases hk
    exact List.forall_mem_nil _
  | cons member rest ih =>
    rw [List.forall_mem_cons] at h
    simp only [keepMembers?, Option.bind_eq_bind, Option.bind_eq_some_iff] at hk
    obtain ⟨key, -, value, hvalue, pairs, hpairs, hk⟩ := hk
    cases hk
    exact List.forall_mem_cons.mpr ⟨h.1 value hvalue, ih hpairs h.2⟩

/-- No key stands twice in a value that is kept. -/
theorem keyed_of_keep? {written : Written} {json : Json} (hk : written.keep? = some json) :
    json.Keyed := by
  induction written generalizing json with
  | null =>
    cases hk
    exact .null
  | boolean b =>
    cases hk
    exact .boolean b
  | number n =>
    obtain ⟨n, -, rfl⟩ := Option.map_eq_some_iff.mp hk
    exact .number n
  | string s =>
    obtain ⟨s, -, rfl⟩ := Option.map_eq_some_iff.mp hk
    exact .string s
  | array items ih =>
    obtain ⟨values, hvalues, rfl⟩ := Option.map_eq_some_iff.mp hk
    exact .array (forall_of_keepItems? hvalues fun item hm _ => ih item hm)
  | object members ih =>
    obtain ⟨pairs, hpairs, rfl⟩ := Option.map_eq_some_iff.mp hk
    have hvalues := forall_of_keepMembers? hpairs fun member hm _ => ih member hm
    exact .object (Entries.nodup_keys_ofList pairs) (Entries.forall_ofList hvalues)

/-! ## 3. Depth -/

theorem depthItems_le_iff {items : List Written} {bound : Nat} :
    depthItems items ≤ bound ↔ ∀ item ∈ items, item.depth ≤ bound := by
  induction items with
  | nil => simp [depthItems]
  | cons item rest ih => rw [depthItems, Nat.max_le, ih, List.forall_mem_cons]

theorem depthMembers_le_iff {members : List (Option String × Written)} {bound : Nat} :
    depthMembers members ≤ bound ↔ ∀ member ∈ members, member.2.depth ≤ bound := by
  induction members with
  | nil => simp [depthMembers]
  | cons member rest ih =>
    obtain ⟨key, item⟩ := member
    rw [depthMembers, Nat.max_le, ih, List.forall_mem_cons]

theorem depth_array_le_iff {items : List Json} {bound : Nat} :
    (ofJson (.array items)).depth ≤ bound + 1 ↔ ∀ item ∈ items, (ofJson item).depth ≤ bound := by
  rw [ofJson, depth, Nat.add_le_add_iff_right, depthItems_le_iff, ofItems_eq_map,
    List.forall_mem_map]

theorem depth_object_le_iff {members : Members} {bound : Nat} :
    (ofJson (.object members)).depth ≤ bound + 1 ↔
      ∀ member ∈ members, (ofJson member.2).depth ≤ bound := by
  rw [ofJson, depth, Nat.add_le_add_iff_right, depthMembers_le_iff]
  induction members with
  | nil => simp [ofMembers]
  | cons member rest ih =>
    obtain ⟨key, value⟩ := member
    rw [ofMembers, List.forall_mem_cons, List.forall_mem_cons, ih]

/-- A value that is kept is no deeper than what is written. -/
theorem depth_ofJson_le {written : Written} {json : Json} (hk : written.keep? = some json) :
    (ofJson json).depth ≤ written.depth := by
  induction written generalizing json with
  | null | boolean =>
    cases hk
    exact Nat.le_refl _
  | number n =>
    obtain ⟨n, -, rfl⟩ := Option.map_eq_some_iff.mp hk
    exact Nat.le_refl _
  | string s =>
    obtain ⟨s, -, rfl⟩ := Option.map_eq_some_iff.mp hk
    exact Nat.le_refl _
  | array items ih =>
    obtain ⟨values, hvalues, rfl⟩ := Option.map_eq_some_iff.mp hk
    have hitems := depthItems_le_iff.mp (Nat.le_refl (depthItems items))
    rw [depth, depth_array_le_iff]
    exact forall_of_keepItems? hvalues fun item hm value hvalue =>
      Nat.le_trans (ih item hm hvalue) (hitems item hm)
  | object members ih =>
    obtain ⟨pairs, hpairs, rfl⟩ := Option.map_eq_some_iff.mp hk
    have hmembers := depthMembers_le_iff.mp (Nat.le_refl (depthMembers members))
    rw [depth, depth_object_le_iff]
    have hvalues := forall_of_keepMembers? hpairs fun member hm value hvalue =>
      Nat.le_trans (ih member hm hvalue) (hmembers member hm)
    exact Entries.forall_ofList (P := fun value => (ofJson value).depth ≤ depthMembers members)
      hvalues

end Json.Written

end GraphQL
