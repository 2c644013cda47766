import GraphQL.Proofs.Execution.Tracing

/-!
# `GraphQL/Proofs/Execution/Fitting.lean` — traces fit the schema and the document

Every trace that tracing comes to fits the declared type of its position and the selections that
apply there (`Trace.Fits`): leaves are what a leaf type made of some value, lists have items at
consecutive indices, and an object is of a type that its declared type allows, with exactly the
fields that are selected on that type, in order — or, where tracing ends at the first failure that
is passed on, with the fields up to that one (`Through`).

This is the invariant from which conformance of the response data and the order of the error log
are read off. It says nothing about resolvers: whatever they return, completion makes it fit.
-/

set_option autoImplicit false

namespace GraphQL

/-! ## 1. What a declared type allows -/

/-- The object types that a value of a declared type can turn out to have: the declared type itself
if it is an object type, and any registered object type if it is abstract, since a type resolver is
believed. -/
inductive Schema.RuntimeType (schema : Schema) : Name → ObjectType → Prop where
  | itself {name : Name} {type : ObjectType} (h : schema.types.get? name = some (.object type)) :
    RuntimeType schema name type
  | possible {name : Name} {abstract : TypeDefinition} {type : ObjectType}
    (h : schema.types.get? name = some abstract) (ha : abstract.isAbstract = true)
    (hr : .object type ∈ schema.types.entries) : RuntimeType schema name type

/-- The response data that a scalar or enum type makes of some value. -/
inductive Schema.LeafData (schema : Schema) : Name → Json → Prop where
  | scalar {name : Name} {type : ScalarType} {value coerced : Value}
    (h : schema.types.get? name = some (.scalar type)) (hc : type.coerce value = some coerced) :
    LeafData schema name coerced.toJson
  | enum {name : Name} {type : EnumType} {value coerced : Value}
    (h : schema.types.get? name = some (.enum type)) (hc : type.coerce value = some coerced) :
    LeafData schema name coerced.toJson

/-- The object type of a name is registered under it, and has it for its own. -/
theorem Schema.get?_of_object? {schema : Schema} {name : Name} {type : ObjectType}
    (h : schema.object? name = some type) :
    type.name = name ∧ schema.types.get? name = some (.object type) := by
  unfold object? at h
  split at h
  · next found hf =>
    cases h
    exact ⟨(Table.get?_eq_some_iff.mp hf).2, hf⟩
  · cases h

theorem Schema.mem_entries_of_object? {schema : Schema} {name : Name} {type : ObjectType}
    (h : schema.object? name = some type) : .object type ∈ schema.types.entries :=
  (Table.get?_eq_some_iff.mp (get?_of_object? h).2).1

/-- A declared field is one of its type, and none of the three that no type declares. -/
theorem Schema.field?_eq_declared {schema : Schema} {type : ObjectType} {name : Name}
    {definition : FieldDefinition}
    (h : schema.field? type name = some (.declared definition)) :
    name ∉ ["__schema", "__type", "__typename"] ∧ type.fields.get? name = some definition := by
  unfold field? at h
  split at h
  · cases h
  · next htypename =>
    split at h
    · split at h
      · split at h <;> cases h
      · cases h
    · next hroot =>
      obtain ⟨field, hf, he⟩ := Option.map_eq_some_iff.mp h
      cases he
      exact ⟨by simp_all, hf⟩

section Abstract

variable {σ : Type} {schema : Schema} {application : Application σ} {abstractType : Name}
variable {value : Value} {s : σ} {type : ObjectType}

theorem object?_of_firstTypeOf {names : List Name}
    (h : (firstTypeOf schema application abstractType value names s).1 = .ok (some type)) :
    ∃ name ∈ names, schema.object? name = some type := by
  induction names generalizing s with
  | nil => cases h
  | cons name rest ih =>
    have hrest : ∀ {s : σ}, (firstTypeOf schema application abstractType value rest s).1 =
        .ok (some type) → ∃ other ∈ name :: rest, schema.object? other = some type := by
      intro s h
      obtain ⟨other, hm, ho⟩ := ih h
      exact ⟨other, List.mem_cons_of_mem _ hm, ho⟩
    unfold firstTypeOf at h
    cases ho : schema.object? name with
    | none =>
      rw [ho] at h
      exact hrest h
    | some found =>
      rw [ho] at h
      dsimp only at h
      cases hb : application.isTypeOf name with
      | none =>
        rw [hb] at h
        cases h
      | some belongs =>
        rw [hb] at h
        simp only [bind, StateT.bind] at h
        generalize belongs value s = asked at h
        obtain ⟨b, s₁⟩ := asked
        cases b with
        | true =>
          cases h
          exact ⟨name, List.mem_cons_self, ho⟩
        | false => exact hrest h

/-- A value of an abstract type is of an object type that the type resolver names, or one of those
that the abstract type stands for. -/
theorem object?_of_objectTypeOf
    (h : (objectTypeOf schema application abstractType value s).1 = .ok (some type)) :
    ∃ name, schema.object? name = some type ∧
      ((∃ resolve, application.resolveType abstractType = some resolve ∧
        (resolve value s).1 = some name) ∨ name ∈ schema.possibleTypes abstractType) := by
  unfold objectTypeOf at h
  cases hr : application.resolveType abstractType with
  | none =>
    rw [hr] at h
    obtain ⟨name, hm, ho⟩ := object?_of_firstTypeOf h
    exact ⟨name, ho, Or.inr hm⟩
  | some resolve =>
    rw [hr] at h
    simp only [bind, StateT.bind] at h
    cases hanswer : resolve value s with
    | mk answer s₁ =>
      rw [hanswer] at h
      cases answer with
      | none => cases h
      | some name =>
        dsimp only at h
        cases ho : schema.object? name with
        | none =>
          rw [ho] at h
          cases h
        | some found =>
          rw [ho] at h
          cases h
          exact ⟨name, ho, Or.inl ⟨resolve, rfl, congrArg Prod.fst hanswer⟩⟩

/-- Whatever names it, the object type of a value of an abstract type is registered. -/
theorem mem_entries_of_objectTypeOf
    (h : (objectTypeOf schema application abstractType value s).1 = .ok (some type)) :
    .object type ∈ schema.types.entries := by
  obtain ⟨name, ho, -⟩ := object?_of_objectTypeOf h
  exact Schema.mem_entries_of_object? ho

end Abstract

/-! ## 2. Which positions a value has -/

/-- The positions of the fields that selections select on an object type, in order. -/
def Scope.fieldPositions (scope : Scope) (type : ObjectType) (selections : List Selection) :
    List Position :=
  (scope.selectedFields type selections).map SelectedField.position

/-- A value of a declared type and its positions: as many consecutive indices as a list has items;
for an object of a type that is allowed, the fields selected on it. -/
inductive Shape.Opens (scope : Scope) :
    Shape → TypeRef → List Selection → List Position → Prop where
  | list {item : TypeRef} {required : Bool} {group : FieldGroup} {selections : List Selection}
    {count : Nat} (h : group.selections = selections) :
    Opens scope .list (.list item required) selections
      ((List.range count).map (itemPosition item group))
  | object {name : Name} {required : Bool} {type : ObjectType} {selections : List Selection}
    (h : scope.schema.RuntimeType name type) :
    Opens scope (.object type selections) (.named name required) selections
      (scope.fieldPositions type selections)

/-- The parts that are traced at given positions: all of them, or those up to the first that passes
a failure on, if tracing ends there. -/
inductive Through (extent : Extent) : List Position → List (Position × Trace) → Prop where
  | done : Through extent [] []
  | stop {position : Position} {trace : Trace} {rest : List Position}
    (he : extent = .untilFailure) (hp : position.passesOn trace = true) :
    Through extent (position :: rest) [(position, trace)]
  | next {position : Position} {trace : Trace} {rest : List Position}
    {others : List (Position × Trace)}
    (hp : extent = .untilFailure → position.passesOn trace = false)
    (hr : Through extent rest others) :
    Through extent (position :: rest) ((position, trace) :: others)

namespace Through

variable {extent : Extent} {positions : List Position} {children : List (Position × Trace)}

theorem isPrefix (h : Through extent positions children) : children.map (·.1) <+: positions := by
  induction h with
  | done => exact List.nil_prefix
  | stop he hp => exact List.prefix_cons_inj _ |>.mpr List.nil_prefix
  | next hp hr ih => exact List.prefix_cons_inj _ |>.mpr ih

/-- If no failure is passed on, all positions are come to. -/
theorem map_fst_eq (h : Through extent positions children) {entries : List (Position × Json)}
    (hr : Trace.partResults children = some entries) : entries.map (·.1) = positions := by
  rw [Trace.map_fst_partResults hr]
  have hnone : ¬ ∃ child ∈ children, child.1.passesOn child.2 = true := by
    rw [← Trace.partResults_eq_none_iff, hr]
    exact Option.some_ne_none _
  clear hr
  induction h with
  | done => rfl
  | stop he hp => exact absurd ⟨_, List.mem_singleton.mpr rfl, hp⟩ hnone
  | next hp hr ih =>
    rw [List.map_cons, ih]
    rintro ⟨child, hc, h⟩
    exact hnone ⟨child, List.mem_cons_of_mem _ hc, h⟩

/-- If tracing ends at a failure that is passed on, only the last part passes one on. -/
theorem eq_concat (h : Through .untilFailure positions children)
    (hr : Trace.partResults children = none) :
    ∃ before last, children = before ++ [last] ∧ last.1.passesOn last.2 = true := by
  rw [Trace.partResults_eq_none_iff] at hr
  induction h with
  | done =>
    obtain ⟨child, hc, -⟩ := hr
    cases hc
  | stop he hp => exact ⟨[], _, rfl, hp⟩
  | @next position trace rest others hp hr' ih =>
    obtain ⟨child, hc, h⟩ := hr
    rcases List.mem_cons.mp hc with rfl | hc
    · -- What has been gone past does not pass a failure on.
      rw [hp rfl] at h
      cases h
    · obtain ⟨before, last, rfl, hl⟩ := ih ⟨child, hc, h⟩
      exact ⟨(position, trace) :: before, last, rfl, hl⟩

end Through

/-! ## 3. Fitting -/

/-- A trace fits a declared type and the selections that apply there. -/
inductive Trace.Fits (scope : Scope) (extent : Extent) :
    TypeRef → List Selection → Trace → Prop where
  | null {type : TypeRef} {selections : List Selection} (h : type.required = false) :
    Fits scope extent type selections (.data .null)
  | leaf {name : Name} {required : Bool} {selections : List Selection} {data : Json}
    (h : scope.schema.LeafData name data) (hn : required = true → data.isNull = false) :
    Fits scope extent (.named name required) selections (.data data)
  | fault {type : TypeRef} {selections : List Selection} {report : ErrorReport}
    (h : report.path = []) : Fits scope extent type selections (.fault report)
  | parts {type : TypeRef} {selections : List Selection} {shape : Shape}
    {positions : List Position} {children : List (Position × Trace)}
    (ho : shape.Opens scope type selections positions) (ht : Through extent positions children)
    (hc : ∀ child ∈ children, Fits scope extent child.1.type child.1.group.selections child.2) :
    Fits scope extent type selections (.parts shape children)

/-- Whatever a tracing comes to has a property. -/
def Traced.Yields {σ α : Type} (P : α → Prop) (traced : Traced σ α) : Prop :=
  ∀ s a s', traced s = some (a, s') → P a

namespace Traced.Yields

variable {σ α β : Type} {P : α → Prop} {Q : β → Prop}

theorem pure {a : α} (h : P a) : Yields P (Pure.pure a : Traced σ α) := by
  intro s a' s' ha
  cases ha
  exact h

theorem bind {traced : Traced σ α} {next : α → Traced σ β} (h : Yields P traced)
    (hn : ∀ a, P a → Yields Q (next a)) : Yields Q (traced >>= next) := by
  intro s b s' hb
  rw [Traced.bind_apply, Option.bind_eq_some_iff] at hb
  obtain ⟨⟨a, s₁⟩, ha, hb⟩ := hb
  exact hn a (h s a s₁ ha) s₁ b s' hb

theorem map {traced : Traced σ α} {f : α → β} (h : Yields P traced) (hf : ∀ a, P a → Q (f a)) :
    Yields Q (f <$> traced) := by
  rw [map_eq_pure_bind]
  exact h.bind fun a ha => pure (hf a ha)

end Traced.Yields

/-- The loop over parts goes through their positions, and finds at each what fits there. -/
theorem traceParts_through {σ α : Type} (extent : Extent) (position : α → Position)
    {trace : α → Traced σ Trace} (P : Position → Trace → Prop)
    (h : ∀ part, (trace part).Yields (P (position part))) (all : List α) :
    (traceParts extent position trace all).Yields fun children =>
      Through extent (all.map position) children ∧ ∀ child ∈ children, P child.1 child.2 := by
  induction all with
  | nil => exact .pure ⟨.done, fun _ hc => by cases hc⟩
  | cons part rest ih =>
    unfold traceParts
    refine (h part).bind fun first hf => ?_
    split
    · next hs =>
      refine .pure ⟨.stop hs.1 hs.2, fun child hc => ?_⟩
      cases List.mem_singleton.mp hc
      exact hf
    · next hs =>
      refine ih.bind fun others ho => .pure ⟨.next ?_ ho.1, ?_⟩
      · intro he
        exact Bool.eq_false_iff.mpr fun hp => hs ⟨he, hp⟩
      · rw [List.forall_mem_cons]
        exact ⟨hf, ho.2⟩

section Tracing

variable {σ : Type} {scope : Scope} {extent : Extent}

theorem Shape.Opens.of_nullable {shape : Shape} {type : TypeRef} {selections : List Selection}
    {positions : List Position} (h : shape.Opens scope type.nullable selections positions) :
    shape.Opens scope type selections positions := by
  cases type with
  | named name required =>
    cases h with
    | object hr => exact .object hr
  | list item required =>
    cases h with
    | list hg => exact .list hg

/-- Once null has been excluded, what fits the type with null allowed fits the type. -/
theorem Trace.Fits.excludeNull {type : TypeRef} {group : FieldGroup} {selections : List Selection}
    {trace : Trace} (h : trace.Fits scope extent type.nullable selections) :
    (trace.excludeNull group type).Fits scope extent type selections := by
  generalize hb : type.nullable = base at h
  cases h with
  | null _ =>
    rw [Trace.excludeNull]
    split
    · exact .fault rfl
    · next hn =>
      rw [Bool.and_eq_true, not_and] at hn
      exact .null (Bool.eq_false_iff.mpr (hn rfl))
  | leaf hl _ =>
    rw [Trace.excludeNull]
    split
    · exact .fault rfl
    · next hn =>
      rw [Bool.and_eq_true, not_and] at hn
      cases type with
      | named name required =>
        cases hb
        exact .leaf hl fun hr => Bool.eq_false_iff.mpr fun hd => hn hd hr
      | list item required => cases hb
  | fault hp => exact .fault hp
  | parts ho ht hc =>
    rw [← hb] at ho
    exact .parts ho.of_nullable ht hc

variable {application : Application σ}
variable {execute : ObjectType → Value → List Selection → Traced σ Trace}

theorem fits_leafData {name : Name} {selections : List Selection} {coerced : Option Value}
    (h : ∀ value, coerced = some value → scope.schema.LeafData name value.toJson) :
    (Trace.data (leafData coerced)).Fits scope extent (.named name false) selections := by
  cases coerced with
  | none => exact .null rfl
  | some value => exact .leaf (h value rfl) fun hr => by cases hr

theorem traceRuntime_fits {group : FieldGroup} {name : Name} {abstract : TypeDefinition}
    (hg : scope.schema.types.get? name = some abstract) (ha : abstract.isAbstract = true)
    (he : ∀ type value, scope.schema.RuntimeType name type →
      (execute type value group.selections).Yields
        (Trace.Fits scope extent (.named name false) group.selections))
    (value : Value) :
    (Traced.ofState (objectTypeOf scope.schema application name value) >>=
      traceRuntime execute group value).Yields
        (Trace.Fits scope extent (.named name false) group.selections) := by
  refine Traced.Yields.bind (P := fun answer => ∀ type, answer = .ok (some type) →
    .object type ∈ scope.schema.types.entries) ?_ fun answer hr => ?_
  · -- A type resolver is believed, but only as far as it names a registered object type.
    intro s answer s' h type ht
    simp only [Traced.ofState, Option.some.injEq] at h
    exact mem_entries_of_objectTypeOf (s := s) (by rw [h, ht])
  · cases answer with
    | error fault => exact .pure (.fault rfl)
    | ok found =>
      cases found with
      | none => exact .pure (.null rfl)
      | some type => exact he type value (.possible hg ha (hr type rfl))

theorem traceNamed_fits {group : FieldGroup} {name : Name}
    (he : ∀ type value, scope.schema.RuntimeType name type →
      (execute type value group.selections).Yields
        (Trace.Fits scope extent (.named name false) group.selections))
    (value : Value) :
    (traceNamed scope.schema application execute group name value).Yields
      (Trace.Fits scope extent (.named name false) group.selections) := by
  unfold traceNamed
  split
  · exact .pure (.fault rfl)
  · exact .pure (.fault rfl)
  · next type hg => exact .pure (fits_leafData fun coerced hc => .scalar hg hc)
  · next type hg => exact .pure (fits_leafData fun coerced hc => .enum hg hc)
  · next type hg => exact he type value (.itself hg)
  · next type hg => exact traceRuntime_fits hg rfl he value
  · next type hg => exact traceRuntime_fits hg rfl he value

/-- Whatever a value is, its trace fits the type that it is traced at. -/
theorem traceValue_fits {group : FieldGroup}
    (he : ∀ name type value, scope.schema.RuntimeType name type →
      (execute type value group.selections).Yields
        (Trace.Fits scope extent (.named name false) group.selections))
    (type : TypeRef) (value : Value) :
    (traceValue extent scope.schema application execute group type value).Yields
      (Trace.Fits scope extent type group.selections) := by
  induction type generalizing value with
  | named name required =>
    unfold traceValue
    refine Traced.Yields.map (P := Trace.Fits scope extent (.named name false) group.selections) ?_
      fun trace ht => Trace.Fits.excludeNull ht
    split
    · exact .pure (.null rfl)
    · exact traceNamed_fits (he name) value
  | list item required ih =>
    unfold traceValue
    refine Traced.Yields.map
      (P := Trace.Fits scope extent (.list item false) group.selections) ?_
      fun trace ht => Trace.Fits.excludeNull ht
    cases value with
    | null => exact .pure (.null rfl)
    | list items =>
      have hl := traceParts_through extent
        (fun entry : Value × Nat => itemPosition item group entry.2)
        (fun position trace => trace.Fits scope extent position.type position.group.selections)
        (fun entry => ih entry.1) items.zipIdx
      have hi : items.zipIdx.map (fun entry => itemPosition item group entry.2) =
          (List.range items.length).map (itemPosition item group) := by
        rw [List.range_eq_range', ← List.zipIdx_map_snd 0 items, List.map_map]
        rfl
      rw [hi] at hl
      exact hl.map fun children hc => .parts (.list rfl) hc.1 hc.2
    | _ => exact .pure (.fault rfl)

end Tracing

namespace Environment

variable {σ : Type} {extent : Extent}

theorem traceField_fits {env : Environment σ}
    {execute : ObjectType → Value → List Selection → Traced σ Trace}
    (he : ∀ name type value selections, env.schema.RuntimeType name type →
      (execute type value selections).Yields
        (Trace.Fits env.toScope extent (.named name false) selections))
    (type : ObjectType) (source : Value) (field : SelectedField) :
    (env.traceField extent execute type source field).Yields
      (Trace.Fits env.toScope extent field.position.type field.position.group.selections) := by
  unfold traceField
  refine Traced.Yields.bind (P := fun _ => True) (fun _ _ _ _ => trivial) fun answer _ => ?_
  cases answer with
  | ok value => exact traceValue_fits (fun name type value => he name type value _) _ value
  | error error => exact .pure (.fault rfl)

/-- Every trace of a selection set on an object fits each type that allows the type of the object.
-/
theorem traceSelections_fits (env : Environment σ) (depth : Nat) {name : Name} {type : ObjectType}
    (hr : env.schema.RuntimeType name type) (source : Value) (selections : List Selection) :
    (env.traceSelections extent depth type source selections).Yields
      (Trace.Fits env.toScope extent (.named name false) selections) := by
  induction depth generalizing name type source selections with
  | zero =>
    intro s a s' h
    cases h
  | succ depth ih =>
    unfold traceSelections
    have hl := traceParts_through extent SelectedField.position
      (fun position trace =>
        trace.Fits env.toScope extent position.type position.group.selections)
      (traceField_fits (fun name type value selections hr => ih hr value selections) type source)
      (env.selectedFields type selections)
    exact hl.map fun children hc => .parts (.object hr) hc.1 hc.2

end Environment

end GraphQL
