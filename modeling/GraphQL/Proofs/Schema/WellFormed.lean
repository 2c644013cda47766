import GraphQL.Proofs.Schema.Reachability
import GraphQL.Proofs.Schema.Registration

/-!
# `GraphQL/Proofs/Schema/WellFormed.lean` — which descriptions make a schema

`build` checks names and references in nested loops, one kind of type after another, and stops at
the first fault. What it accepts has nothing to do with that order: the names are distinct and not
reserved, every reference leads to a type that can stand where the reference stands, and the root
names lead to object types (`SchemaDescription.WellFormed`). That these descriptions are built and
no others is `SchemaDescription.build_iff_wellFormed`.

The same data say what a fault is about. A fault names a place and the names involved, and
`SchemaDescription.Exhibits` is what it claims about the description, without a word on how it was
found. Every fault that `build` reports is there.

Both sides speak of references, in the plain list that they make up
(`SchemaDescription.references`), and the loops are shown to be one loop over that list.
-/

set_option autoImplicit false

namespace GraphQL

/-! ## 1. References -/

/-- Where a reference to a type stands. -/
inductive ReferenceSite where
  /-- The type of a field. -/
  | output
  /-- The type of an argument or input field. -/
  | input
  /-- An interface that an object type implements. -/
  | interface
  /-- A member of a union. -/
  | member
  deriving DecidableEq, Repr

/-- Whether a type can stand there. -/
def ReferenceSite.accepts : ReferenceSite → TypeDefinition → Bool
  | .output => TypeDefinition.isOutput
  | .input => TypeDefinition.isInput
  | .interface => TypeDefinition.isInterface
  | .member => TypeDefinition.isObject

/-- A reference to a type, with the place that faults report. -/
structure Reference where
  site : ReferenceSite
  coordinate : String
  name : Name

namespace Reference

/-- The fault that the reference leads to a type that cannot stand there. -/
def misplaced (reference : Reference) : SchemaError :=
  match reference.site with
  | .output => .notOutputType reference.coordinate reference.name
  | .input => .notInputType reference.coordinate reference.name
  | .interface => .notAnInterface reference.coordinate reference.name
  | .member => .unionMemberNotObject reference.coordinate reference.name

/-- Checks the reference. -/
def check (types : Table TypeDefinition) (reference : Reference) : Except SchemaError Unit :=
  checkReference types reference.coordinate reference.name reference.site.accepts
    reference.misplaced

end Reference

/-- The reference of an argument or input field. -/
def InputValueDefinition.reference (coordinate : String) (input : InputValueDefinition) :
    Reference where
  site := .input
  coordinate := coordinate
  name := input.type.innermost

/-- The references of a field: its type, then the types of its arguments. -/
def FieldDefinition.references (parent : Name) (field : FieldDefinition) : List Reference :=
  let coordinate := parent ++ "." ++ field.name
  { site := .output, coordinate, name := field.type.innermost } ::
    field.arguments.map fun argument =>
      argument.reference (coordinate ++ "(" ++ argument.name ++ ":)")

/-- The references of a type. -/
def TypeDefinition.references : TypeDefinition → List Reference
  | .scalar _ | .enum _ => []
  | .object type =>
    (type.interfaces.map fun name => { site := .interface, coordinate := type.name, name }) ++
      type.fields.entries.flatMap (·.references type.name)
  | .interface type => type.fields.entries.flatMap (·.references type.name)
  | .union type => type.members.map fun name => { site := .member, coordinate := type.name, name }
  | .input type =>
    type.fields.entries.map fun field => field.reference (type.name ++ "." ++ field.name)

/-- The references of a directive. -/
def DirectiveDefinition.references (directive : DirectiveDefinition) : List Reference :=
  directive.arguments.map fun argument =>
    argument.reference ("@" ++ directive.name ++ "(" ++ argument.name ++ ":)")

namespace SchemaDescription

/-- All references of the types and directives of a schema. -/
def references (description : SchemaDescription) : List Reference :=
  description.allTypes.flatMap (·.references) ++ description.allDirectives.flatMap (·.references)

/-- Some type has a name, and a property. -/
def HasType (description : SchemaDescription) (name : Name) (p : TypeDefinition → Bool) : Prop :=
  ∃ type ∈ description.allTypes, type.name = name ∧ p type = true

/-! ## 2. Well formed descriptions and faults -/

/-- What the author of a schema has to keep to. -/
structure WellFormed (description : SchemaDescription) : Prop where
  unreserved : ∀ type ∈ description.types, isReserved type.name = false
  typesDistinct : (description.types.map (·.name)).Nodup
  /-- Built-in directives count, so no directive of the author is named `include` or `skip`. -/
  directivesDistinct : (description.allDirectives.map (·.name)).Nodup
  references : ∀ reference ∈ description.references,
    description.HasType reference.name reference.site.accepts
  query : ∃ name, description.query = some name ∧
    description.HasType name TypeDefinition.isObject
  mutation : ∀ name, description.mutation = some name →
    description.HasType name TypeDefinition.isObject

/-- The name is that of a root. -/
def IsRoot (description : SchemaDescription) (name : Name) : Prop :=
  description.query = some name ∨ description.mutation = some name

/-- A reference leads to a type that cannot stand there. -/
def Misplaces (description : SchemaDescription) (reference : Reference) : Prop :=
  reference ∈ description.references ∧
    description.HasType reference.name fun type => !reference.site.accepts type

/-- What a fault says of a description. -/
def Exhibits (description : SchemaDescription) : SchemaError → Prop
  | .missingQueryType => description.query = none
  | .rootNotObject name =>
    description.IsRoot name ∧ description.HasType name fun type => !type.isObject
  | .duplicateType name => List.Duplicate name (description.types.map (·.name))
  | .reservedName name => isReserved name = true ∧ name ∈ description.types.map (·.name)
  | .duplicateDirective name => List.Duplicate name (description.allDirectives.map (·.name))
  | .undefinedType coordinate name =>
    (coordinate = "schema" ∧ description.IsRoot name ∨
      ∃ reference ∈ description.references,
        reference.coordinate = coordinate ∧ reference.name = name) ∧
      ∀ type ∈ description.allTypes, type.name ≠ name
  | .unionMemberNotObject union name => description.Misplaces ⟨.member, union, name⟩
  | .notAnInterface object name => description.Misplaces ⟨.interface, object, name⟩
  | .notOutputType coordinate name => description.Misplaces ⟨.output, coordinate, name⟩
  | .notInputType coordinate name => description.Misplaces ⟨.input, coordinate, name⟩

end SchemaDescription

/-! ## 3. One loop over all references -/

section CheckAll

variable {α β : Type} {check : α → Except SchemaError Unit}

theorem checkAll_eq_error {all : List α} {fault : SchemaError}
    (h : checkAll check all = .error fault) : ∃ a ∈ all, check a = .error fault := by
  induction all with
  | nil => cases h
  | cons a rest ih =>
    rw [checkAll] at h
    cases ha : check a with
    | error other =>
      rw [ha] at h
      cases h
      exact ⟨a, List.mem_cons_self, ha⟩
    | ok _ =>
      rw [ha] at h
      obtain ⟨b, hb, hfault⟩ := ih h
      exact ⟨b, List.mem_cons_of_mem _ hb, hfault⟩

theorem checkAll_append (first second : List α) :
    checkAll check (first ++ second) = (do checkAll check first; checkAll check second) := by
  induction first with
  | nil => rfl
  | cons a rest ih =>
    simp only [List.cons_append, checkAll]
    cases check a with
    | ok _ => exact ih
    | error fault => rfl

theorem checkAll_map (f : β → α) (all : List β) :
    checkAll check (all.map f) = checkAll (fun b => check (f b)) all := by
  induction all with
  | nil => rfl
  | cons b rest ih => simp only [List.map_cons, checkAll, ih]

theorem checkAll_flatMap (f : β → List α) (all : List β) :
    checkAll check (all.flatMap f) = checkAll (fun b => checkAll check (f b)) all := by
  induction all with
  | nil => rfl
  | cons b rest ih =>
    rw [List.flatMap_cons, checkAll_append, ih, checkAll]
    cases checkAll check (f b) <;> rfl

end CheckAll

theorem Except.bind_eq_error {ε α β : Type} {first : Except ε α} {next : α → Except ε β} {e : ε}
    (h : (first >>= next) = .error e) :
    first = .error e ∨ ∃ a, first = .ok a ∧ next a = .error e := by
  cases first with
  | error other =>
    cases h
    exact Or.inl rfl
  | ok a => exact Or.inr ⟨a, rfl, h⟩

section Checks

variable (types : Table TypeDefinition)

theorem checkField_eq (parent : Name) (field : FieldDefinition) :
    checkField types parent field = checkAll (Reference.check types) (field.references parent) := by
  rw [FieldDefinition.references, checkAll, checkAll_map]
  unfold checkField
  cases hc : checkReference types (parent ++ "." ++ field.name) field.type.innermost
      TypeDefinition.isOutput
      (.notOutputType (parent ++ "." ++ field.name) field.type.innermost) with
  | ok _ =>
    have hr : Reference.check types ⟨.output, parent ++ "." ++ field.name, field.type.innermost⟩ =
        .ok () := hc
    simp only [hc, hr]
    rfl
  | error fault =>
    have hr : Reference.check types ⟨.output, parent ++ "." ++ field.name, field.type.innermost⟩ =
        .error fault := hc
    simp only [hc, hr]
    rfl

theorem checkFields_eq (parent : Name) (fields : List FieldDefinition) :
    checkAll (checkField types parent) fields =
      checkAll (Reference.check types) (fields.flatMap (·.references parent)) := by
  rw [checkAll_flatMap]
  simp only [← checkField_eq]

theorem checkType_eq (type : TypeDefinition) :
    checkType types type = checkAll (Reference.check types) type.references := by
  cases type with
  | scalar type => rfl
  | enum type => rfl
  | object type =>
    rw [TypeDefinition.references, checkAll_append, checkAll_map, ← checkFields_eq]
    rfl
  | interface type => exact checkFields_eq types type.name type.fields.entries
  | union type =>
    rw [TypeDefinition.references, checkAll_map]
    rfl
  | input type =>
    rw [TypeDefinition.references, checkAll_map]
    rfl

theorem checkDirective_eq (directive : DirectiveDefinition) :
    checkDirective types directive = checkAll (Reference.check types) directive.references := by
  rw [DirectiveDefinition.references, checkAll_map]
  rfl

end Checks

/-! ## 4. References and the registered types -/

namespace SchemaDescription

variable {description : SchemaDescription} {types : Table TypeDefinition}

theorem hasType_iff (ht : types.entries = description.allTypes) {name : Name}
    {p : TypeDefinition → Bool} :
    description.HasType name p ↔ ∃ type, types.get? name = some type ∧ p type = true := by
  constructor
  · rintro ⟨type, hm, hn, hp⟩
    exact ⟨type, Table.get?_eq_some_iff.mpr ⟨ht ▸ hm, hn⟩, hp⟩
  · rintro ⟨type, hg, hp⟩
    obtain ⟨hm, hn⟩ := Table.get?_eq_some_iff.mp hg
    exact ⟨type, ht ▸ hm, hn, hp⟩

theorem name_ne_of_get?_eq_none (ht : types.entries = description.allTypes) {name : Name}
    (hg : types.get? name = none) : ∀ type ∈ description.allTypes, type.name ≠ name := by
  intro type hm hn
  have hs : types.get? name = some type := Table.get?_eq_some_iff.mpr ⟨ht ▸ hm, hn⟩
  rw [hg] at hs
  cases hs

theorem check_eq_ok_iff (ht : types.entries = description.allTypes) {reference : Reference} :
    reference.check types = .ok () ↔
      description.HasType reference.name reference.site.accepts := by
  rw [hasType_iff ht, Reference.check, checkReference]
  cases types.get? reference.name with
  | none => simp
  | some type => cases h : reference.site.accepts type <;> simp [h]

/-- A fault of a reference of the description is there. -/
theorem exhibits_of_check (ht : types.entries = description.allTypes) {reference : Reference}
    (hm : reference ∈ description.references) {fault : SchemaError}
    (h : reference.check types = .error fault) : description.Exhibits fault := by
  rw [Reference.check, checkReference] at h
  cases hg : types.get? reference.name with
  | none =>
    rw [hg] at h
    cases h
    exact ⟨Or.inr ⟨reference, hm, rfl, rfl⟩, name_ne_of_get?_eq_none ht hg⟩
  | some type =>
    simp only [hg] at h
    cases ha : reference.site.accepts type with
    | true => simp [ha] at h
    | false =>
      simp only [ha, Bool.false_eq_true, if_false, Except.error.injEq] at h
      subst h
      have hmisplaces : description.Misplaces reference :=
        ⟨hm, (hasType_iff ht).mpr ⟨type, hg, by rw [ha]; rfl⟩⟩
      obtain ⟨site, coordinate, name⟩ := reference
      cases site <;> exact hmisplaces

theorem exhibits_of_checkTypes (ht : types.entries = description.allTypes) {fault : SchemaError}
    (h : checkAll (checkType types) types.entries = .error fault) : description.Exhibits fault := by
  obtain ⟨type, hm, hf⟩ := checkAll_eq_error h
  rw [checkType_eq] at hf
  obtain ⟨reference, hr, hf⟩ := checkAll_eq_error hf
  rw [ht] at hm
  exact exhibits_of_check ht (List.mem_append_left _ (List.mem_flatMap.mpr ⟨type, hm, hr⟩)) hf

theorem exhibits_of_checkDirectives (ht : types.entries = description.allTypes)
    {directives : Table DirectiveDefinition}
    (hd : directives.entries = description.allDirectives) {fault : SchemaError}
    (h : checkAll (checkDirective types) directives.entries = .error fault) :
    description.Exhibits fault := by
  obtain ⟨directive, hm, hf⟩ := checkAll_eq_error h
  rw [checkDirective_eq] at hf
  obtain ⟨reference, hr, hf⟩ := checkAll_eq_error hf
  rw [hd] at hm
  exact exhibits_of_check ht (List.mem_append_right _ (List.mem_flatMap.mpr ⟨directive, hm, hr⟩)) hf

theorem exhibits_of_rootType (ht : types.entries = description.allTypes) {name : Name}
    (hr : description.IsRoot name) {fault : SchemaError} (h : rootType types name = .error fault) :
    description.Exhibits fault := by
  unfold rootType at h
  split at h
  · cases h
  · next type hne hg =>
    cases h
    refine ⟨hr, (hasType_iff ht).mpr ⟨type, hg, ?_⟩⟩
    cases type with
    | object type => exact absurd rfl (hne type)
    | _ => rfl
  · next hg =>
    cases h
    exact ⟨Or.inl ⟨rfl, hr⟩, name_ne_of_get?_eq_none ht hg⟩

theorem hasType_of_rootType (ht : types.entries = description.allTypes) {name : Name}
    {type : ObjectType} (h : rootType types name = .ok type) :
    description.HasType name TypeDefinition.isObject :=
  (hasType_iff ht).mpr ⟨_, get?_eq_of_rootType h, rfl⟩

/-! ## 5. What build accepts -/

/-- A type and another one of the same name are two of the author's, since no name of the author is
reserved and no two types of introspection have one name. -/
theorem duplicate_types (hu : ∀ type ∈ description.types, isReserved type.name = false)
    {name : Name}
    (h : List.Duplicate name ((description.types ++ Introspection.metaTypes).map (·.name))) :
    List.Duplicate name (description.types.map (·.name)) := by
  have hmeta : (Introspection.metaTypes.map (·.name)).Nodup := by decide
  have hreserved : ∀ type ∈ Introspection.metaTypes, isReserved type.name = true := by
    decide
  rw [List.duplicate_iff_two_le_count, List.map_append, List.count_append] at h
  rw [List.duplicate_iff_two_le_count]
  have hone := List.nodup_iff_count_le_one.mp hmeta name
  by_cases hm : name ∈ Introspection.metaTypes.map (·.name)
  · have hnone : name ∉ description.types.map (·.name) := by
      intro hd
      obtain ⟨type, ht, rfl⟩ := List.mem_map.mp hd
      obtain ⟨other, ho, he⟩ := List.mem_map.mp hm
      have hr := hreserved other ho
      rw [he, hu type ht] at hr
      cases hr
    rw [List.count_eq_zero.mpr hnone] at h
    omega
  · rw [List.count_eq_zero.mpr hm] at h
    exact h

theorem nodup_types (hu : ∀ type ∈ description.types, isReserved type.name = false) :
    ((description.types ++ Introspection.metaTypes).map (·.name)).Nodup ↔
      (description.types.map (·.name)).Nodup := by
  rw [List.nodup_iff_forall_not_duplicate, List.nodup_iff_forall_not_duplicate]
  constructor
  · intro h name hd
    rw [List.map_append] at h
    exact h name (hd.mono_sublist (List.sublist_append_left _ _))
  · intro h name hd
    exact h name (duplicate_types hu hd)

theorem exhibits_of_registeredTypes
    (hu : ∀ type ∈ description.types, isReserved type.name = false) {fault : SchemaError}
    (h : description.registeredTypes = .error fault) : description.Exhibits fault := by
  unfold registeredTypes at h
  cases hi : insertAll .duplicateType .empty (description.types ++ Introspection.metaTypes) with
  | ok types =>
    rw [hi] at h
    cases h
  | error other =>
    rw [hi] at h
    cases h
    obtain ⟨name, rfl, hd⟩ := insertAll_eq_error hi
    exact duplicate_types hu hd

/-- A fault that is reported is there. -/
theorem exhibits_of_build {fault : SchemaError} (h : description.build = .error fault) :
    description.Exhibits fault := by
  unfold build at h
  cases hr : description.types.find? fun type => isReserved type.name with
  | some type =>
    rw [hr] at h
    cases h
    have hreserved := List.find?_some hr
    exact ⟨hreserved, List.mem_map_of_mem (List.mem_of_find?_eq_some hr)⟩
  | none =>
    have hu : ∀ type ∈ description.types, isReserved type.name = false := by
      intro type hm
      exact Bool.eq_false_iff.mpr (List.find?_eq_none.mp hr type hm)
    rw [hr] at h
    dsimp only at h
    rcases Except.bind_eq_error h with h | ⟨types, ht, h⟩
    · exact exhibits_of_registeredTypes hu h
    have he := (registeredTypes_eq_ok_iff.mp ht).2
    rcases Except.bind_eq_error h with h | ⟨directives, hd, h⟩
    · obtain ⟨name, rfl, hd⟩ := insertAll_eq_error h
      exact hd
    have hde : directives.entries = description.allDirectives := (insertAll_eq_ok_iff.mp hd).2
    rcases Except.bind_eq_error h with h | ⟨_, -, h⟩
    · exact exhibits_of_checkTypes he h
    rcases Except.bind_eq_error h with h | ⟨_, -, h⟩
    · exact exhibits_of_checkDirectives he hde h
    cases hq : description.query with
    | none =>
      rw [hq] at h
      cases h
      exact hq
    | some query =>
      rw [hq] at h
      dsimp only at h
      rcases Except.bind_eq_error h with h | ⟨type, -, h⟩
      · exact exhibits_of_rootType he (Or.inl hq) h
      cases hm : description.mutation with
      | none =>
        rw [hm] at h
        cases h
      | some mutation =>
        rw [hm] at h
        dsimp only at h
        rcases Except.bind_eq_error h with h | ⟨_, -, h⟩
        · cases hroot : rootType types mutation with
          | error other =>
            rw [hroot] at h
            cases h
            exact exhibits_of_rootType he (Or.inr hm) hroot
          | ok type =>
            rw [hroot] at h
            cases h
        · cases h

theorem Builds.wellFormed {schema : Schema} (hb : description.Builds schema) :
    description.WellFormed where
  unreserved := hb.unreserved
  typesDistinct := (nodup_types hb.unreserved).mp (registeredTypes_eq_ok_iff.mp hb.types).1
  directivesDistinct := (insertAll_eq_ok_iff.mp hb.directives).1
  references := by
    intro reference hm
    rw [← check_eq_ok_iff hb.entries_types]
    rcases List.mem_append.mp hm with hm | hm
    · obtain ⟨type, ht, hm⟩ := List.mem_flatMap.mp hm
      rw [← hb.entries_types] at ht
      have hc := checkAll_eq_ok hb.typesChecked type ht
      rw [checkType_eq] at hc
      exact checkAll_eq_ok hc reference hm
    · obtain ⟨directive, hd, hm⟩ := List.mem_flatMap.mp hm
      rw [← hb.entries_directives] at hd
      have hc := checkAll_eq_ok hb.directivesChecked directive hd
      rw [checkDirective_eq] at hc
      exact checkAll_eq_ok hc reference hm
  query := by
    obtain ⟨name, hq, hr⟩ := hb.query
    exact ⟨name, hq, hasType_of_rootType hb.entries_types hr⟩
  mutation := by
    intro name hm
    obtain ⟨type, -, hr⟩ := hb.mutationNamed name hm
    exact hasType_of_rootType hb.entries_types hr

namespace WellFormed

theorem exists_table (hw : description.WellFormed) :
    ∃ types : Table TypeDefinition, types.entries = description.allTypes :=
  ⟨withBuiltInScalars ⟨_, (nodup_types hw.unreserved).mpr hw.typesDistinct⟩,
    entries_withBuiltInScalars rfl⟩

/-- Two types of one name are the same, so they do not differ in a property. -/
theorem not_hasType_not (hw : description.WellFormed) {name : Name} {p : TypeDefinition → Bool}
    (h : description.HasType name p) : ¬ description.HasType name fun type => !p type := by
  obtain ⟨types, ht⟩ := hw.exists_table
  rw [hasType_iff ht] at h ⊢
  obtain ⟨type, hg, hp⟩ := h
  rintro ⟨other, ho, hq⟩
  rw [hg] at ho
  cases ho
  simp [hp] at hq

theorem hasType_of_isRoot (hw : description.WellFormed) {name : Name}
    (hr : description.IsRoot name) : description.HasType name TypeDefinition.isObject := by
  rcases hr with hq | hm
  · obtain ⟨query, hquery, ht⟩ := hw.query
    rw [hq] at hquery
    cases hquery
    exact ht
  · exact hw.mutation name hm

theorem not_misplaces (hw : description.WellFormed) (reference : Reference) :
    ¬ description.Misplaces reference :=
  fun ⟨hm, hn⟩ => hw.not_hasType_not (hw.references reference hm) hn

/-- A well formed description has no fault. -/
theorem not_exhibits (hw : description.WellFormed) (fault : SchemaError) :
    ¬ description.Exhibits fault := by
  cases fault with
  | missingQueryType =>
    intro hn
    obtain ⟨name, hq, -⟩ := hw.query
    rw [hn] at hq
    cases hq
  | rootNotObject name =>
    rintro ⟨hr, hn⟩
    exact hw.not_hasType_not (hw.hasType_of_isRoot hr) hn
  | duplicateType name => exact List.nodup_iff_forall_not_duplicate.mp hw.typesDistinct name
  | reservedName name =>
    rintro ⟨hr, hm⟩
    obtain ⟨type, ht, rfl⟩ := List.mem_map.mp hm
    rw [hw.unreserved type ht] at hr
    cases hr
  | duplicateDirective name =>
    exact List.nodup_iff_forall_not_duplicate.mp hw.directivesDistinct name
  | undefinedType coordinate name =>
    rintro ⟨hreferred, hnone⟩
    have hsome : ∃ p, description.HasType name p := by
      rcases hreferred with ⟨-, hr⟩ | ⟨reference, hm, -, rfl⟩
      · exact ⟨_, hw.hasType_of_isRoot hr⟩
      · exact ⟨_, hw.references reference hm⟩
    obtain ⟨p, type, hm, hn, -⟩ := hsome
    exact hnone type hm hn
  | unionMemberNotObject union member => exact hw.not_misplaces _
  | notAnInterface object name => exact hw.not_misplaces _
  | notOutputType coordinate name => exact hw.not_misplaces _
  | notInputType coordinate name => exact hw.not_misplaces _

end WellFormed

/-- Building makes a schema of exactly the well formed descriptions, and where it does not, the
fault that it reports is there. -/
theorem build_iff_wellFormed (description : SchemaDescription) :
    ((∃ schema, description.build = .ok schema) ↔ description.WellFormed) ∧
      ∀ fault, description.build = .error fault → description.Exhibits fault := by
  refine ⟨⟨fun ⟨schema, hb⟩ => (builds hb).wellFormed, fun hw => ?_⟩, fun _ => exhibits_of_build⟩
  cases hb : description.build with
  | ok schema => exact ⟨schema, rfl⟩
  | error fault => exact absurd (exhibits_of_build hb) (hw.not_exhibits fault)

end SchemaDescription

end GraphQL
