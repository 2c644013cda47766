import Mathlib.Data.List.Nodup
import Mathlib.Data.List.Perm.Subperm
import Mathlib.Logic.Relation
import GraphQL.Proofs.Schema.Built

/-!
# `GraphQL/Proofs/Schema/Reachability.lean` — the types of a schema, and what they lead to

The list of reachable types is found by a walk in depth, and the law about it is closure: whatever a
listed type leads to is listed (`Schema.mem_reachable_of_edge`). It takes two things. All that types
lead to is registered, because building checks every reference (`Builds.registered_of_edge`). And a
walk leaves nothing out: of all that it has newly found it has followed all edges (`Walks`).

The built-in scalar types are listed after the walk, and their edges are not followed, for scalars
have none. But a name such as `Int` may be taken by a type of any kind, and closure then depends on
`Schema.KeepsBuiltIns`.
-/

set_option autoImplicit false

namespace GraphQL

/-! ## 1. References -/

theorem checkAll_eq_ok {α : Type} {check : α → Except SchemaError Unit} {all : List α}
    (h : checkAll check all = .ok ()) : ∀ a ∈ all, check a = .ok () := by
  induction all with
  | nil => exact List.forall_mem_nil _
  | cons a rest ih =>
    rw [checkAll] at h
    split at h
    · next ha => exact List.forall_mem_cons.mpr ⟨ha, ih h⟩
    · cases h

namespace Table

theorem mem_names_iff {α : Type} [Named α] {table : Table α} {name : Name} :
    name ∈ table.names ↔ ∃ entry, table.get? name = some entry := by
  rw [names, List.mem_map]
  constructor
  · rintro ⟨entry, hm, hn⟩
    exact ⟨entry, get?_eq_some_iff.mpr ⟨hm, hn⟩⟩
  · rintro ⟨entry, he⟩
    exact ⟨entry, get?_eq_some_iff.mp he⟩

theorem mem_fieldEdges {fields : Table FieldDefinition} {next : Name} :
    next ∈ fieldEdges fields ↔ ∃ field ∈ fields.entries,
      (∃ argument ∈ field.arguments, argument.type.innermost = next) ∨
        field.type.innermost = next := by
  simp only [fieldEdges, List.mem_flatMap, List.mem_append, List.mem_map, List.mem_singleton,
    eq_comm]

end Table

section References

variable {types : Table TypeDefinition} {coordinate : String}

theorem get?_of_checkReference {name : Name} {accepts : TypeDefinition → Bool}
    {fault : SchemaError} (h : checkReference types coordinate name accepts fault = .ok ()) :
    ∃ type, types.get? name = some type ∧ accepts type = true := by
  unfold checkReference at h
  split at h
  · cases h
  · next type ht =>
    split at h
    · next ha => exact ⟨type, ht, ha⟩
    · cases h

theorem registered_of_checkReference {name : Name} {accepts : TypeDefinition → Bool}
    {fault : SchemaError} (h : checkReference types coordinate name accepts fault = .ok ()) :
    name ∈ types.names := by
  obtain ⟨type, ht, -⟩ := get?_of_checkReference h
  exact Table.mem_names_iff.mpr ⟨type, ht⟩

theorem registered_of_checkField {parent : Name} {field : FieldDefinition}
    (h : checkField types parent field = .ok ()) :
    field.type.innermost ∈ types.names ∧
      ∀ argument ∈ field.arguments, argument.type.innermost ∈ types.names := by
  obtain ⟨_, ht, ha⟩ := Except.bind_eq_ok h
  refine ⟨registered_of_checkReference ht, fun argument hm => ?_⟩
  exact registered_of_checkReference (checkAll_eq_ok ha argument hm)

/-- What checked fields lead to is registered. -/
theorem registered_of_mem_fieldEdges {parent : Name} {fields : Table FieldDefinition}
    (h : checkAll (checkField types parent) fields.entries = .ok ()) {next : Name}
    (hn : next ∈ Table.fieldEdges fields) : next ∈ types.names := by
  obtain ⟨field, hm, he⟩ := Table.mem_fieldEdges.mp hn
  obtain ⟨ht, ha⟩ := registered_of_checkField (checkAll_eq_ok h field hm)
  rcases he with ⟨argument, hargument, rfl⟩ | rfl
  · exact ha argument hargument
  · exact ht

end References

namespace SchemaDescription.Builds

variable {description : SchemaDescription} {schema : Schema}

/-- Every object type that an abstract type stands for is registered. -/
theorem registered_of_possibleType (hb : description.Builds schema) {abstractType next : Name}
    (h : next ∈ schema.types.possibleTypes abstractType) : next ∈ schema.types.names := by
  rcases Table.mem_possibleTypes.mp h with ⟨type, hm, -, rfl⟩ | ⟨type, hm, -, hn⟩
  · exact List.mem_map_of_mem hm
  · have hc := checkAll_eq_ok hb.typesChecked _ hm
    exact registered_of_checkReference (checkAll_eq_ok hc next hn)

/-- Whatever a registered type leads to is registered. -/
theorem registered_of_edge (hb : description.Builds schema) {type : TypeDefinition}
    (hm : type ∈ schema.types.entries) {next : Name} (hn : next ∈ type.edges schema.types) :
    next ∈ schema.types.names := by
  have hc := checkAll_eq_ok hb.typesChecked type hm
  cases type with
  | scalar type => cases hn
  | enum type => cases hn
  | union type => exact hb.registered_of_possibleType hn
  | object type =>
    obtain ⟨_, hi, hf⟩ := Except.bind_eq_ok hc
    rcases List.mem_append.mp hn with hn | hn
    · exact registered_of_checkReference (checkAll_eq_ok hi next hn)
    · exact registered_of_mem_fieldEdges hf hn
  | interface type =>
    rcases List.mem_append.mp hn with hn | hn
    · exact hb.registered_of_possibleType hn
    · exact registered_of_mem_fieldEdges hc hn
  | input type =>
    obtain ⟨field, hfield, rfl⟩ := List.mem_map.mp hn
    exact registered_of_checkReference (checkAll_eq_ok hc field hfield)

end SchemaDescription.Builds

/-! ## 2. Walks -/

namespace Table

variable {types : Table TypeDefinition}

/-- Types that may have been found: they are registered, and no two of them have one name. -/
structure Finds (types : Table TypeDefinition) (found : List TypeDefinition) : Prop where
  registered : found ⊆ types.entries
  distinct : (found.map (·.name)).Nodup

/-- What walking to several names does to what has been found: it adds to it, and of what it adds it
has followed all edges. -/
structure Walks (types : Table TypeDefinition) (names : List Name)
    (found after : List TypeDefinition) : Prop where
  finds : types.Finds after
  grows : found <+: after
  arrives : ∀ name ∈ names, name ∈ types.names → name ∈ after.map (·.name)
  closed : ∀ type ∈ after, type ∉ found → ∀ next ∈ type.edges types, next ∈ types.names →
    next ∈ after.map (·.name)

theorem Finds.nil : types.Finds [] :=
  ⟨List.nil_subset _, List.nodup_nil⟩

/-- As many found types as there are types are all of them. -/
theorem Finds.mem_of_length_le {found : List TypeDefinition} (hf : types.Finds found)
    (hl : types.entries.length ≤ found.length) {name : Name} (hn : name ∈ types.names) :
    name ∈ found.map (·.name) := by
  have hsub : (found.map (·.name)).Subperm types.names := by
    apply hf.distinct.subperm
    exact List.map_subset _ hf.registered
  have hlength : types.names.length ≤ (found.map (·.name)).length := by
    rw [names, List.length_map, List.length_map]
    exact hl
  exact (hsub.perm_of_length_le hlength).mem_iff.mpr hn

theorem Finds.concat {found : List TypeDefinition} (hf : types.Finds found) {type : TypeDefinition}
    (hm : type ∈ types.entries) (hn : type.name ∉ found.map (·.name)) :
    types.Finds (found ++ [type]) where
  registered := List.append_subset.mpr ⟨hf.registered, List.cons_subset.mpr ⟨hm, List.nil_subset _⟩⟩
  distinct := by
    rw [List.map_append, List.map_singleton, ← List.concat_eq_append]
    exact List.Nodup.concat hn hf.distinct

namespace Walks

theorem refl {found : List TypeDefinition} (hf : types.Finds found) {names : List Name}
    (ha : ∀ name ∈ names, name ∈ types.names → name ∈ found.map (·.name)) :
    types.Walks names found found :=
  ⟨hf, List.prefix_rfl, ha, fun _ hm hn => absurd hm hn⟩

theorem cons {name : Name} {rest : List Name} {found between after : List TypeDefinition}
    (h : types.Walks [name] found between) (h' : types.Walks rest between after) :
    types.Walks (name :: rest) found after where
  finds := h'.finds
  grows := h.grows.trans h'.grows
  arrives := by
    rw [List.forall_mem_cons]
    refine ⟨fun hr => ?_, h'.arrives⟩
    exact List.map_subset _ h'.grows.subset (h.arrives name (List.mem_singleton_self name) hr)
  closed type hm hn next he hr := by
    by_cases hb : type ∈ between
    · exact List.map_subset _ h'.grows.subset (h.closed type hb hn next he hr)
    · exact h'.closed type hm hb next he hr

/-- A walk to all that a new type leads to is a walk to the type. -/
theorem of_edges {type : TypeDefinition} {found after : List TypeDefinition}
    (h : types.Walks (type.edges types) (found ++ [type]) after) :
    types.Walks [type.name] found after where
  finds := h.finds
  grows := (List.prefix_append _ _).trans h.grows
  arrives := by
    refine List.forall_mem_singleton.mpr fun _ => List.mem_map_of_mem ?_
    exact h.grows.subset (List.mem_append_right _ (List.mem_singleton_self type))
  closed other ho hn next he hr := by
    by_cases hlast : other ∈ found ++ [type]
    · -- The type itself: the walk has come to all that it leads to.
      rcases List.mem_append.mp hlast with hfound | htype
      · exact absurd hfound hn
      · rw [List.mem_singleton.mp htype] at he
        exact h.arrives next he hr
    · exact h.closed other ho hlast next he hr

end Walks

/-- A walk to each of several names is a walk. -/
theorem walks_foldl {visit : List TypeDefinition → Name → List TypeDefinition} {bound : Nat}
    (hv : ∀ found name, types.Finds found → bound ≤ found.length →
      types.Walks [name] found (visit found name)) (names : List Name) :
    ∀ {found : List TypeDefinition}, types.Finds found → bound ≤ found.length →
      types.Walks names found (names.foldl visit found) := by
  induction names with
  | nil =>
    intro found hf _
    exact .refl hf (List.forall_mem_nil _)
  | cons name rest ih =>
    intro found hf hl
    have hfirst := hv found name hf hl
    exact hfirst.cons (ih hfirst.finds (Nat.le_trans hl hfirst.grows.length_le))

theorem any_iff {found : List TypeDefinition} {name : Name} :
    (found.any fun other => other.name = name) = true ↔ name ∈ found.map (·.name) := by
  simp

/-- Visiting a name is a walk to it, if it may go as deep as there are types left to find. -/
theorem walks_visit (depth : Nat) {found : List TypeDefinition} (hf : types.Finds found)
    (hl : types.entries.length ≤ depth + found.length) (name : Name) :
    types.Walks [name] found (types.visit depth found name) := by
  induction depth generalizing found name with
  | zero =>
    -- As many types have been found as there are, so there is nothing left to walk to.
    rw [Nat.zero_add] at hl
    exact .refl hf fun _ _ hr => hf.mem_of_length_le hl hr
  | succ depth ih =>
    rw [visit]
    split
    · next hnone =>
      refine .refl hf (List.forall_mem_singleton.mpr fun hr => ?_)
      obtain ⟨type, ht⟩ := mem_names_iff.mp hr
      rw [hnone] at ht
      cases ht
    · next type ht =>
      obtain ⟨hm, hname⟩ := get?_eq_some_iff.mp ht
      change type.name = name at hname
      split
      · next hany =>
        exact .refl hf (List.forall_mem_singleton.mpr fun _ => any_iff.mp hany)
      · next hany =>
        have hnew : type.name ∉ found.map (·.name) := by
          rw [hname]
          exact fun h => hany (any_iff.mpr h)
        have hstep : ∀ found name, types.Finds found → types.entries.length - depth ≤ found.length →
            types.Walks [name] found (types.visit depth found name) :=
          fun found name hf hl => ih hf (by omega) name
        -- One type more has been found, and one level less is left.
        have hlength : types.entries.length - depth ≤ (found ++ [type]).length := by
          rw [List.length_append, List.length_singleton]
          omega
        have hwalk := walks_foldl hstep (type.edges types) (hf.concat hm hnew) hlength
        rw [← hname]
        exact hwalk.of_edges

/-- The types that a walk from the roots finds. -/
def walked (types : Table TypeDefinition) (roots : List Name) : List TypeDefinition :=
  (roots ++ ["__Schema"]).foldl (types.visit types.entries.length) []

theorem walks_walked (roots : List Name) :
    types.Walks (roots ++ ["__Schema"]) [] (types.walked roots) :=
  walks_foldl (fun _ name hf hl => walks_visit _ hf (by omega) name) _ .nil
    (Nat.zero_le 0)

/-- One name leads to another if the registered type of the first has an edge to the other. -/
def Follows (types : Table TypeDefinition) (name next : Name) : Prop :=
  ∃ type, types.get? name = some type ∧ next ∈ type.edges types

/-- A walk from the roots finds all that the roots lead to. -/
theorem mem_walked_of_follows {roots : List Name} {root name : Name}
    (hroot : root ∈ roots ++ ["__Schema"]) (h : Relation.ReflTransGen types.Follows root name)
    (hr : name ∈ types.names) : name ∈ (types.walked roots).map (·.name) := by
  induction h with
  | refl => exact (walks_walked roots).arrives root hroot hr
  | tail _ hf ih =>
    obtain ⟨type, ht, he⟩ := hf
    obtain ⟨found, hm, hn⟩ := List.mem_map.mp (ih (mem_names_iff.mpr ⟨type, ht⟩))
    -- The type that was found under the name is the registered one.
    have hget := get?_eq_some_iff.mpr ⟨(walks_walked roots).finds.registered hm, hn⟩
    cases ht.symm.trans hget
    exact (walks_walked roots).closed type hm List.not_mem_nil _ he hr

theorem subset_include (found : List TypeDefinition) (name : Name) :
    found ⊆ types.include found name := by
  unfold Table.include
  split
  · exact List.Subset.refl found
  · split
    · exact List.Subset.refl found
    · exact List.subset_append_left _ _

/-- What is included besides is registered, under one of the names. -/
theorem mem_foldl_include {names : List Name} {found : List TypeDefinition}
    {type : TypeDefinition} :
    type ∈ names.foldl types.include found →
      type ∈ found ∨ ∃ name ∈ names, types.get? name = some type := by
  induction names generalizing found with
  | nil => exact Or.inl
  | cons name rest ih =>
    intro h
    rcases ih h with h | ⟨other, ho, ht⟩
    · unfold Table.include at h
      split at h
      · exact Or.inl h
      · next added ha =>
        split at h
        · exact Or.inl h
        · rcases List.mem_append.mp h with h | h
          · exact Or.inl h
          · cases List.mem_singleton.mp h
            exact Or.inr ⟨name, List.mem_cons_self, ha⟩
    · exact Or.inr ⟨other, List.mem_cons_of_mem _ ho, ht⟩

theorem subset_foldl_include (names : List Name) (found : List TypeDefinition) :
    found ⊆ names.foldl types.include found := by
  induction names generalizing found with
  | nil => exact List.Subset.refl found
  | cons name rest ih => exact List.Subset.trans (subset_include found name) (ih _)

theorem walked_subset_reachable (roots : List Name) :
    types.walked roots ⊆ types.reachable roots :=
  subset_foldl_include _ _

end Table

/-! ## 3. The reachable types of a schema -/

namespace Schema

variable {schema : Schema}

/-- A name of a reachable type. -/
def Lists (schema : Schema) (name : Name) : Prop :=
  name ∈ schema.reachable.map (·.name)

instance (schema : Schema) (name : Name) : Decidable (schema.Lists name) :=
  inferInstanceAs (Decidable (name ∈ schema.reachable.map (·.name)))

/-- A name that the roots lead to. -/
def Reaches (schema : Schema) (name : Name) : Prop :=
  ∃ root ∈ rootNames schema.query schema.mutation ++ ["__Schema"],
    Relation.ReflTransGen schema.types.Follows root name

theorem reaches_query : schema.Reaches schema.query.name :=
  ⟨_, List.mem_append_left _ List.mem_cons_self, .refl⟩

theorem reaches_mutation {type : ObjectType} (hm : schema.mutation = some type) :
    schema.Reaches type.name := by
  refine ⟨_, List.mem_append_left _ ?_, .refl⟩
  rw [hm]
  exact List.mem_cons_of_mem _ List.mem_cons_self

theorem reaches_schemaType : schema.Reaches "__Schema" :=
  ⟨_, List.mem_append_right _ (List.mem_singleton_self _), .refl⟩

/-- A type that has taken the name of a built-in scalar type leads to no other type, as a scalar
does, or the roots lead to it. -/
def KeepsBuiltIns (schema : Schema) : Prop :=
  ∀ name ∈ builtInScalarNames, ∀ type, schema.types.get? name = some type →
    type.edges schema.types = [] ∨ schema.Reaches name

theorem walked_subset : schema.types.walked (rootNames schema.query schema.mutation) ⊆
    schema.reachable := by
  rw [schema.reachable_eq]
  exact Table.walked_subset_reachable _

/-- What the roots lead to is listed. -/
theorem mem_reachable_of_reaches {name : Name} (h : schema.Reaches name)
    (hr : name ∈ schema.types.names) : schema.Lists name := by
  obtain ⟨root, hroot, hf⟩ := h
  exact List.map_subset _ walked_subset (Table.mem_walked_of_follows hroot hf hr)

theorem registered_of_mem_reachable {type : TypeDefinition} (hm : type ∈ schema.reachable) :
    type ∈ schema.types.entries := by
  rw [schema.reachable_eq] at hm
  rcases Table.mem_foldl_include hm with h | ⟨name, -, ht⟩
  · exact (Table.walks_walked _).finds.registered h
  · exact (Table.get?_eq_some_iff.mp ht).1

/-- A listed type is registered under its name, and no other type is. -/
theorem get?_of_mem_reachable {type : TypeDefinition} (hm : type ∈ schema.reachable) :
    schema.types.get? type.name = some type :=
  Table.get?_eq_some_iff.mpr ⟨registered_of_mem_reachable hm, rfl⟩

/-- What can be looked up among the reachable types is registered. -/
theorem registered_of_get? {name : Name} (hl : (schema.get? name).isSome = true) :
    name ∈ schema.types.names := by
  obtain ⟨type, ht⟩ := Option.isSome_iff_exists.mp hl
  have hn : type.name = name := by simpa using List.find?_some ht
  exact hn ▸ List.mem_map_of_mem (registered_of_mem_reachable (List.mem_of_find?_eq_some ht))

/-- Whatever a listed type leads to is listed. -/
theorem mem_reachable_of_edge (hk : schema.KeepsBuiltIns) {type : TypeDefinition}
    (hm : type ∈ schema.reachable) {next : Name} (he : next ∈ type.edges schema.types)
    (hr : next ∈ schema.types.names) : schema.Lists next := by
  have hcases := hm
  rw [schema.reachable_eq] at hcases
  rcases Table.mem_foldl_include hcases with h | ⟨name, hn, ht⟩
  · have hw : schema.types.Walks _ [] (schema.types.walked _) :=
      Table.walks_walked (rootNames schema.query schema.mutation)
    exact List.map_subset _ walked_subset (hw.closed type h List.not_mem_nil next he hr)
  · rcases hk name hn type ht with hnone | ⟨root, hroot, hf⟩
    · rw [hnone] at he
      cases he
    · exact mem_reachable_of_reaches ⟨root, hroot, hf.tail ⟨type, ht, he⟩⟩ hr

/-- A name can be looked up among the reachable types if it is one of theirs. -/
theorem get?_eq_some {name : Name} (h : schema.Lists name) :
    ∃ type, schema.get? name = some type ∧ type.name = name := by
  obtain ⟨type, hm, hn⟩ := List.mem_map.mp h
  cases hf : schema.get? name with
  | some found =>
    have hfound := List.find?_some hf
    exact ⟨found, rfl, of_decide_eq_true hfound⟩
  | none =>
    have hnot := List.find?_eq_none.mp hf type hm
    exact absurd (decide_eq_true hn) hnot

theorem get?_eq_none {name : Name} (h : ¬ schema.Lists name) :
    schema.get? name = none := by
  refine List.find?_eq_none.mpr fun type hm hn => h ?_
  rw [← of_decide_eq_true hn]
  exact List.mem_map_of_mem hm

end Schema

end GraphQL
