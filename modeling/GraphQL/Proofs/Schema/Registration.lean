import Mathlib.Data.List.Duplicate
import Mathlib.Data.List.Nodup
import GraphQL.Proofs.Schema.Built

/-!
# `GraphQL/Proofs/Schema/Registration.lean` — what is registered

Building puts types and directives into tables one after the other, and gives up at the first name
that is taken. That is how it goes about it; what comes out is a list that can be written down from
the description alone (`SchemaDescription.allTypes`), and it comes out exactly when no name occurs
twice in it. `registeredTypes_eq_ok_iff` and `insertAll_eq_error` say so, and nothing after them
looks at `insert?` again.
-/

set_option autoImplicit false

namespace GraphQL

/-! ## 1. Putting entries into a table -/

section Table

variable {α : Type} [Named α] {fault : Name → SchemaError} {table table' : Table α}

theorem Table.ext (h : table.entries = table'.entries) : table = table' := by
  obtain ⟨entries, distinct⟩ := table
  obtain ⟨entries', distinct'⟩ := table'
  cases h
  rfl

theorem Table.insert?_eq_some_iff {entry : α} :
    table.insert? entry = some table' ↔
      Named.name entry ∉ table.names ∧ table'.entries = table.entries ++ [entry] := by
  unfold insert?
  by_cases hm : Named.name entry ∈ table.names
  · simp [contains_iff.mpr hm, hm]
  · have hc : table.contains (Named.name entry) = false := by
      rw [Bool.eq_false_iff]
      exact fun h => hm (contains_iff.mp h)
    simp only [hc, Bool.false_eq_true, if_false, Option.some.injEq, hm, not_false_eq_true, true_and]
    constructor
    · intro h
      subst h
      exact entries_put_of_not_mem hm
    · intro h
      exact ext ((entries_put_of_not_mem hm).trans h.symm)

theorem Table.insert?_eq_none_iff {entry : α} :
    table.insert? entry = none ↔ Named.name entry ∈ table.names := by
  simp [insert?, contains_iff]

/-- Entries all go in, in order, if no name is taken twice. -/
theorem insertAll_eq_ok_iff {all : List α} :
    insertAll fault table all = .ok table' ↔
      (table.names ++ all.map Named.name).Nodup ∧ table'.entries = table.entries ++ all := by
  induction all generalizing table with
  | nil =>
    rw [insertAll, Except.ok.injEq, List.map_nil, List.append_nil, List.append_nil]
    constructor
    · rintro rfl
      exact ⟨table.distinct, rfl⟩
    · rintro ⟨-, h⟩
      exact Table.ext h.symm
  | cons entry rest ih =>
    rw [insertAll]
    cases hi : table.insert? entry with
    | none =>
      rw [Table.insert?_eq_none_iff] at hi
      simp only [reduceCtorEq, List.map_cons, false_iff, not_and]
      intro hn
      rw [List.nodup_append] at hn
      exact absurd rfl (hn.2.2 _ hi _ List.mem_cons_self)
    | some between =>
      obtain ⟨-, he⟩ := Table.insert?_eq_some_iff.mp hi
      dsimp only
      rw [ih, Table.names, he]
      simp [Table.names]

/-- Where entries do not all go in, the name of the fault is there twice. -/
theorem insertAll_eq_error {all : List α} {error : SchemaError}
    (h : insertAll fault table all = .error error) :
    ∃ name, error = fault name ∧ List.Duplicate name (table.names ++ all.map Named.name) := by
  induction all generalizing table with
  | nil => cases h
  | cons entry rest ih =>
    rw [insertAll] at h
    cases hi : table.insert? entry with
    | none =>
      rw [hi] at h
      cases h
      rw [Table.insert?_eq_none_iff] at hi
      refine ⟨Named.name entry, rfl, ?_⟩
      rw [List.duplicate_iff_two_le_count, List.count_append, List.map_cons, List.count_cons_self]
      have hpos := List.count_pos_iff.mpr hi
      omega
    | some between =>
      rw [hi] at h
      obtain ⟨name, hname, hd⟩ := ih h
      obtain ⟨-, he⟩ := Table.insert?_eq_some_iff.mp hi
      refine ⟨name, hname, ?_⟩
      simpa [Table.names, he] using hd

end Table

/-! ## 2. The types and directives of a description -/

theorem entries_foldl_insert? {scalars : List ScalarType} (hn : (scalars.map (·.name)).Nodup)
    (types : Table TypeDefinition) :
    (scalars.foldl (fun types scalar => (types.insert? (.scalar scalar)).getD types)
        types).entries =
      types.entries ++ (scalars.filter fun scalar => scalar.name ∉ types.names).map .scalar := by
  induction scalars generalizing types with
  | nil => simp
  | cons scalar rest ih =>
    rw [List.map_cons, List.nodup_cons] at hn
    rw [List.foldl_cons, ih hn.2]
    cases hi : types.insert? (.scalar scalar) with
    | none =>
      have hm : scalar.name ∈ types.names := Table.insert?_eq_none_iff.mp hi
      simp [hm]
    | some after =>
      obtain ⟨hm, he⟩ := Table.insert?_eq_some_iff.mp hi
      have hnew : scalar.name ∉ types.names := hm
      have hnames : after.names = types.names ++ [scalar.name] := by
        rw [Table.names, he, List.map_append]
        rfl
      -- No later scalar has the name of this one, so which of them are new has not changed.
      have hrest : (rest.filter fun other => other.name ∉ after.names) =
          rest.filter fun other => other.name ∉ types.names := by
        refine List.filter_congr fun other ho => ?_
        have hne : other.name ≠ scalar.name := fun h => hn.1 (h ▸ List.mem_map_of_mem ho)
        simp [hnames, hne]
      rw [Option.getD_some, he, hrest, List.filter_cons, if_pos (decide_eq_true hnew),
        List.map_cons, List.append_assoc, List.singleton_append]

namespace SchemaDescription

/-- The types of a schema: those of the author, those of introspection, and the built-in scalar
types whose names the author has not taken. -/
def allTypes (description : SchemaDescription) : List TypeDefinition :=
  description.types ++ Introspection.metaTypes ++
    (Scalar.builtIn.filter fun scalar => scalar.name ∉ description.types.map (·.name)).map .scalar

/-- The directives of a schema: the built-in ones and those of the author. -/
def allDirectives (description : SchemaDescription) : List DirectiveDefinition :=
  builtInDirectives ++ description.directives

variable {description : SchemaDescription}

theorem entries_withBuiltInScalars {types : Table TypeDefinition}
    (h : types.entries = description.types ++ Introspection.metaTypes) :
    (withBuiltInScalars types).entries = description.allTypes := by
  have hd : (Scalar.builtIn.map (·.name)).Nodup := by decide
  have hmeta : ∀ scalar ∈ Scalar.builtIn,
      scalar.name ∉ Introspection.metaTypes.map (·.name) := by decide
  rw [withBuiltInScalars, entries_foldl_insert? hd, h, allTypes]
  refine congrArg (fun scalars => _ ++ List.map TypeDefinition.scalar scalars) ?_
  refine List.filter_congr fun scalar hs => ?_
  have hnames : types.names =
      description.types.map (·.name) ++ Introspection.metaTypes.map (·.name) := by
    rw [Table.names, h, List.map_append]
    rfl
  simp only [hnames, List.mem_append, hmeta scalar hs, or_false]

theorem registeredTypes_eq_ok_iff {types : Table TypeDefinition} :
    description.registeredTypes = .ok types ↔
      ((description.types ++ Introspection.metaTypes).map (·.name)).Nodup ∧
        types.entries = description.allTypes := by
  unfold registeredTypes
  constructor
  · intro h
    obtain ⟨between, hi, hw⟩ := Except.bind_eq_ok h
    obtain ⟨hn, he⟩ := insertAll_eq_ok_iff.mp hi
    cases hw
    exact ⟨hn, entries_withBuiltInScalars he⟩
  · rintro ⟨hn, he⟩
    have hi : insertAll SchemaError.duplicateType .empty
        (description.types ++ Introspection.metaTypes) = .ok ⟨_, hn⟩ :=
      insertAll_eq_ok_iff.mpr ⟨hn, rfl⟩
    rw [hi]
    exact congrArg Except.ok (Table.ext ((entries_withBuiltInScalars rfl).trans he.symm))

end SchemaDescription

namespace SchemaDescription.Builds

variable {description : SchemaDescription} {schema : Schema}

theorem entries_types (hb : description.Builds schema) :
    schema.types.entries = description.allTypes :=
  (registeredTypes_eq_ok_iff.mp hb.types).2

theorem entries_directives (hb : description.Builds schema) :
    schema.directives.entries = description.allDirectives :=
  (insertAll_eq_ok_iff.mp hb.directives).2

theorem get?_eq_some_iff (hb : description.Builds schema) {name : Name} {type : TypeDefinition} :
    schema.types.get? name = some type ↔ type ∈ description.allTypes ∧ type.name = name := by
  rw [Table.get?_eq_some_iff, hb.entries_types]
  rfl

/-- The types of the author and those of introspection are registered under their names. -/
theorem get?_registered (hb : description.Builds schema) {type : TypeDefinition}
    (hm : type ∈ description.types ++ Introspection.metaTypes) :
    schema.types.get? type.name = some type :=
  hb.get?_eq_some_iff.mpr ⟨List.mem_append_left _ hm, rfl⟩

/-- A built-in scalar type is registered if the author has not taken its name. -/
theorem get?_builtIn (hb : description.Builds schema) {type : ScalarType}
    (hm : type ∈ Scalar.builtIn) (ha : type.name ∉ description.types.map (·.name)) :
    schema.types.get? type.name = some (.scalar type) := by
  refine hb.get?_eq_some_iff.mpr ⟨List.mem_append_right _ (List.mem_map_of_mem ?_), rfl⟩
  exact List.mem_filter.mpr ⟨hm, decide_eq_true ha⟩

/-- Under the name of every built-in scalar type a type is registered, the author's or that one. -/
theorem registered_builtIn (hb : description.Builds schema) :
    builtInScalarNames ⊆ schema.types.names := by
  intro name hn
  have hnames : builtInScalarNames = Scalar.builtIn.map (·.name) := rfl
  by_cases ha : name ∈ description.types.map (·.name)
  · obtain ⟨type, hm, rfl⟩ := List.mem_map.mp ha
    have ht := hb.get?_registered (List.mem_append_left _ hm)
    exact List.mem_map_of_mem (Table.get?_eq_some_iff.mp ht).1
  · rw [hnames] at hn
    obtain ⟨scalar, hm, rfl⟩ := List.mem_map.mp hn
    have ht := hb.get?_builtIn hm ha
    exact List.mem_map_of_mem (Table.get?_eq_some_iff.mp ht).1

theorem get?_metaType (hb : description.Builds schema) {type : TypeDefinition}
    (hm : type ∈ Introspection.metaTypes) : schema.types.get? type.name = some type :=
  hb.get?_registered (List.mem_append_right _ hm)

theorem get?_schemaType (hb : description.Builds schema) :
    schema.types.get? "__Schema" = some (.object Introspection.schemaType) := by
  have hm : .object Introspection.schemaType ∈ Introspection.metaTypes := List.mem_cons_self
  exact hb.get?_metaType hm

theorem get?_typeType (hb : description.Builds schema) :
    schema.types.get? "__Type" = some (.object Introspection.typeType) := by
  have hm : .object Introspection.typeType ∈ Introspection.metaTypes :=
    List.mem_cons_of_mem _ List.mem_cons_self
  exact hb.get?_metaType hm

end SchemaDescription.Builds

end GraphQL
