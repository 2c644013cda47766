import GraphQL.Proofs.Execution.Tracing

/-!
# `GraphQL/Proofs/Execution/Simulation.lean` — one way of tracing inside another

Two tracings of the same selections differ in how much depth they are given and in how far they go
on after a failure. `Traced.Follows` relates them: wherever the first comes to something, the second
comes to what a function `cut` makes of it, with the same state. The walk through completion and
field execution (`Cut.traceValue`, `Cut.traceField`) is the same whatever `cut` is, as long as it
leaves values without parts alone and the loop over parts agrees with it — which is what a `Cut`
is. With `cut` the identity this says that more depth changes nothing that has been finished
(`traceSelections_mono`), so an execution returns one response at most.
-/

set_option autoImplicit false

namespace GraphQL

/-! ## 1. Following -/

/-- Wherever the first tracing comes to something, the second comes to the cut of it. -/
def Traced.Follows {σ α β : Type} (cut : α → β) (first : Traced σ α) (second : Traced σ β) : Prop :=
  ∀ s a s', first s = some (a, s') → second s = some (cut a, s')

namespace Traced.Follows

variable {σ α β γ δ : Type}

theorem refl (traced : Traced σ α) : Follows id traced traced :=
  fun _ _ _ h => h

theorem pure {cut : α → β} {a : α} {b : β} (h : cut a = b) :
    Follows cut (Pure.pure a : Traced σ α) (Pure.pure b) := by
  intro s a' s' ha
  cases ha
  rw [h]
  rfl

theorem bind {cut : α → β} {cut' : γ → δ} {first : Traced σ α} {second : Traced σ β}
    {next : α → Traced σ γ} {next' : β → Traced σ δ} (h : Follows cut first second)
    (hn : ∀ a, Follows cut' (next a) (next' (cut a))) :
    Follows cut' (first >>= next) (second >>= next') := by
  intro s c s' hc
  rw [Traced.bind_apply, Option.bind_eq_some_iff] at hc
  obtain ⟨⟨a, s₁⟩, ha, hc⟩ := hc
  rw [Traced.bind_apply, h s a s₁ ha]
  exact hn a s₁ c s' hc

theorem map {cut : α → β} {cut' : γ → δ} {first : Traced σ α} {second : Traced σ β} {f : α → γ}
    {g : β → δ} (h : Follows cut first second) (hf : ∀ a, cut' (f a) = g (cut a)) :
    Follows cut' (f <$> first) (g <$> second) := by
  rw [map_eq_pure_bind, map_eq_pure_bind]
  exact h.bind fun a => pure (hf a)

end Traced.Follows

/-! ## 2. The walk -/

/-- A function on traces that turns what one extent finds into what another finds: values without
parts stay as they are, values with parts keep having parts, and if it does so for the parts of a
value it does so for the value. -/
structure Cut (σ : Type) (first second : Extent) (cut : Trace → Trace) : Prop where
  data : ∀ json, cut (.data json) = .data json
  fault : ∀ report, cut (.fault report) = .fault report
  parts : ∀ shape children, ∃ rest, cut (.parts shape children) = .parts shape rest
  loop : ∀ {α : Type} {position : α → Position} {trace trace' : α → Traced σ Trace} {all : List α},
    (∀ part, Traced.Follows cut (trace part) (trace' part)) → ∀ shape,
    Traced.Follows cut (Trace.parts shape <$> traceParts first position trace all)
      (Trace.parts shape <$> traceParts second position trace' all)

namespace Cut

variable {σ : Type} {first second : Extent} {cut : Trace → Trace}

theorem excludeNull (h : Cut σ first second cut) (group : FieldGroup) (type : TypeRef)
    (trace : Trace) :
    cut (trace.excludeNull group type) = (cut trace).excludeNull group type := by
  cases trace with
  | data json =>
    rw [h.data, Trace.excludeNull]
    split
    · exact h.fault _
    · exact h.data json
  | fault report =>
    rw [h.fault]
    exact h.fault report
  | parts shape children =>
    obtain ⟨rest, hr⟩ := h.parts shape children
    rw [hr]
    exact hr

variable {schema : Schema} {application : Application σ}
variable {execute execute' : ObjectType → Value → List Selection → Traced σ Trace}

theorem traceRuntime (h : Cut σ first second cut)
    (he : ∀ type value selections,
      Traced.Follows cut (execute type value selections) (execute' type value selections))
    (group : FieldGroup) (value : Value) (answer : Except CompletionFault (Option ObjectType)) :
    Traced.Follows cut (GraphQL.traceRuntime execute group value answer)
      (GraphQL.traceRuntime execute' group value answer) := by
  cases answer with
  | error fault => exact .pure (h.fault _)
  | ok found =>
    cases found with
    | none => exact .pure (h.data _)
    | some type => exact he type value group.selections

theorem traceNamed (h : Cut σ first second cut)
    (he : ∀ type value selections,
      Traced.Follows cut (execute type value selections) (execute' type value selections))
    (group : FieldGroup) (name : Name) (value : Value) :
    Traced.Follows cut (GraphQL.traceNamed schema application execute group name value)
      (GraphQL.traceNamed schema application execute' group name value) := by
  unfold GraphQL.traceNamed
  cases schema.types.get? name with
  | none => exact .pure (h.fault _)
  | some type =>
    cases type with
    | scalar type => exact .pure (h.data _)
    | enum type => exact .pure (h.data _)
    | input type => exact .pure (h.fault _)
    | object type => exact he type value group.selections
    | interface type => exact (Traced.Follows.refl _).bind (h.traceRuntime he group value)
    | union type => exact (Traced.Follows.refl _).bind (h.traceRuntime he group value)

theorem traceValue (h : Cut σ first second cut)
    (he : ∀ type value selections,
      Traced.Follows cut (execute type value selections) (execute' type value selections))
    (group : FieldGroup) (type : TypeRef) (value : Value) :
    Traced.Follows cut (GraphQL.traceValue first schema application execute group type value)
      (GraphQL.traceValue second schema application execute' group type value) := by
  induction type generalizing value with
  | named name required =>
    unfold GraphQL.traceValue
    refine Traced.Follows.map ?_ (h.excludeNull group _)
    split
    · exact .pure (h.data _)
    · exact h.traceNamed he group name value
  | list item required ih =>
    unfold GraphQL.traceValue
    refine Traced.Follows.map ?_ (h.excludeNull group _)
    cases value with
    | null => exact .pure (h.data _)
    | list items => exact h.loop (fun entry : Value × Nat => ih entry.1) .list
    | _ => exact .pure (h.fault _)

theorem traceField {env : Environment σ} (h : Cut σ first second cut)
    (he : ∀ type value selections,
      Traced.Follows cut (execute type value selections) (execute' type value selections))
    (type : ObjectType) (source : Value) (field : SelectedField) :
    Traced.Follows cut (env.traceField first execute type source field)
      (env.traceField second execute' type source field) := by
  unfold Environment.traceField
  refine (Traced.Follows.refl _).bind fun answer => ?_
  cases answer with
  | ok value => exact h.traceValue he field.group _ value
  | error error => exact .pure (h.fault _)

/-- What one extent finds at some depth, the other finds cut, at the same depth and at any greater
one. -/
theorem traceSelections (h : Cut σ first second cut) (env : Environment σ) {depth depth' : Nat}
    (hd : depth ≤ depth') (type : ObjectType) (source : Value) (selections : List Selection) :
    Traced.Follows cut (env.traceSelections first depth type source selections)
      (env.traceSelections second depth' type source selections) := by
  induction depth generalizing depth' type source selections with
  | zero =>
    intro s a s' ha
    cases ha
  | succ depth ih =>
    -- Where the first has depth left, so has the second.
    obtain ⟨depth', rfl⟩ : ∃ n, depth' = n + 1 := ⟨depth' - 1, by omega⟩
    unfold Environment.traceSelections
    exact h.loop (h.traceField (ih (by omega)) type source) _

end Cut

/-! ## 3. Depth -/

/-- Nothing is cut where both extents are one. -/
theorem Cut.same (σ : Type) (extent : Extent) : Cut σ extent extent id where
  data _ := rfl
  fault _ := rfl
  parts _ children := ⟨children, rfl⟩
  loop {α position trace trace' all} ht shape := by
    have hp : Traced.Follows id (traceParts extent position trace all)
        (traceParts extent position trace' all) := by
      induction all with
      | nil => exact .pure rfl
      | cons part rest ih =>
        unfold traceParts
        refine (ht part).bind fun first => ?_
        rw [id_eq]
        by_cases hs : extent = .untilFailure ∧ (position part).passesOn first = true
        · rw [if_pos hs, if_pos hs]
          exact .pure rfl
        · rw [if_neg hs, if_neg hs]
          exact ih.bind fun _ => .pure rfl
    exact hp.map fun _ => rfl

namespace Environment

variable {σ : Type} {env : Environment σ} {extent : Extent}

/-- More depth changes nothing that has been finished. -/
theorem traceSelections_mono {depth depth' : Nat} (hd : depth ≤ depth') {type : ObjectType}
    {source : Value} {selections : List Selection} {s s' : σ} {trace : Trace}
    (ht : env.traceSelections extent depth type source selections s = some (trace, s')) :
    env.traceSelections extent depth' type source selections s = some (trace, s') :=
  (Cut.same σ extent).traceSelections env hd type source selections s trace s' ht

/-- A selection set has one trace, and one state after it. -/
theorem Traces.unique {type : ObjectType} {source : Value} {selections : List Selection}
    {s s₁ s₂ : σ} {trace₁ trace₂ : Trace}
    (h₁ : env.Traces extent type source selections s trace₁ s₁)
    (h₂ : env.Traces extent type source selections s trace₂ s₂) : trace₁ = trace₂ ∧ s₁ = s₂ := by
  obtain ⟨depth₁, h₁⟩ := h₁
  obtain ⟨depth₂, h₂⟩ := h₂
  have h := (traceSelections_mono (Nat.le_max_left depth₁ depth₂) h₁).symm.trans
    (traceSelections_mono (Nat.le_max_right depth₁ depth₂) h₂)
  simpa using h

end Environment

end GraphQL
