import GraphQL.Proofs.Execution.Conformance
import GraphQL.Proofs.Json.Keyed

/-!
# `GraphQL/Proofs/Execution/ErrorLog.lean` — what the errors of a response say

Errors are reported where they happen and get their paths from outside in. Four things follow for
the log as a whole. Each error explains a null: on the way along its path, the data comes to null.
No failure is reported twice, so no path is another's prefix. The errors stand in the order in which
execution comes to their positions, which is that of the items of a list and of the response keys of
an object (`Trace.Before`). And if there is no data, then the last error is the one that has made
its way to the root, through nothing but positions that exclude null (`Trace.RequiredAlong`).

Order and types along a path are those of the trace and not of the data, because where an error has
left null the data does not tell which object was there.

All four go by induction over a trace that fits, where one step is a value with parts. The order of
the parts is that of their positions (`Shape.Opens.pairwise_precedes`); what a step from the value
to a part reads is what stands at the position (`Shape.Opens.at?_assemble`); and where a failure is
passed on, it is from the last part (`Through.eq_concat`).
-/

set_option autoImplicit false

namespace GraphQL

/-! ## 1. Following a path through data -/

/-- What is reached from a value along a path, key by key and index by index. -/
def Json.at? : Json → List PathElement → Option Json
  | json, [] => some json
  | .object members, .field key :: path => (Entries.get? members key).bind (at? · path)
  | .array items, .index index :: path => items[index]?.bind (at? · path)
  | _, _ :: _ => none

/-- What is reached from the data of a response along a path. -/
def ResponseData.at? (data : ResponseData) (path : List PathElement) : Option Json :=
  match data with
  | .object members => (Json.object members).at? path
  | .null => Json.null.at? path
  | .absent => none

/-- Following a path comes to null, at its end or on the way. -/
def Json.ReachesNull (data : Json) (path : List PathElement) : Prop :=
  ∃ reached, reached <+: path ∧ data.at? reached = some .null

/-! ## 2. The order of positions -/

/-- One step comes before another in a value: indices in their order, and response keys in the order
in which they first occur among the collected fields of the object. -/
inductive Shape.Precedes (scope : Scope) : Shape → PathElement → PathElement → Prop where
  | index {i j : Nat} (h : i < j) : Precedes scope .list (.index i) (.index j)
  | field {type : ObjectType} {selections : List Selection} {k l : Name}
    (h : [k, l].Sublist ((scope.collect type.name selections).map (·.key)).eraseDups) :
    Precedes scope (.object type selections) (.field k) (.field l)

/-- One path comes before another: at their first difference, in the value that both come to. -/
inductive Trace.Before (scope : Scope) : Trace → List PathElement → List PathElement → Prop where
  | here {shape : Shape} {children : List (Position × Trace)} {step step' : PathElement}
    {path path' : List PathElement} (h : shape.Precedes scope step step') :
    Before scope (.parts shape children) (step :: path) (step' :: path')
  | inside {shape : Shape} {children : List (Position × Trace)} {position : Position}
    {trace : Trace} {path path' : List PathElement} (hm : (position, trace) ∈ children)
    (h : trace.Before scope path path') :
    Before scope (.parts shape children) (position.step :: path) (position.step :: path')

/-- A path leads through positions whose types exclude null. -/
inductive Trace.RequiredAlong : Trace → List PathElement → Prop where
  | nil {trace : Trace} : RequiredAlong trace []
  | cons {shape : Shape} {children : List (Position × Trace)} {position : Position}
    {trace : Trace} {path : List PathElement} (hm : (position, trace) ∈ children)
    (hr : position.type.required = true) (h : trace.RequiredAlong path) :
    RequiredAlong (.parts shape children) (position.step :: path)

section Order

variable {scope : Scope}

theorem Shape.Precedes.ne {shape : Shape} {step step' : PathElement}
    (h : shape.Precedes scope step step') : step ≠ step' := by
  cases h with
  | index h =>
    intro he
    cases he
    exact Nat.lt_irrefl _ h
  | @field type selections k l h =>
    intro he
    cases he
    have hn := h.nodup (by
      rw [← FieldGroup.keys_ofNodes]
      exact FieldGroup.nodup_keys_ofNodes _)
    simp at hn

theorem Trace.Before.not_prefix {trace : Trace} {path path' : List PathElement}
    (h : trace.Before scope path path') : ¬ path <+: path' ∧ ¬ path' <+: path := by
  induction h with
  | here h =>
    rw [List.cons_prefix_cons, List.cons_prefix_cons]
    exact ⟨fun hp => h.ne hp.1, fun hp => h.ne hp.1.symm⟩
  | inside _ _ ih =>
    rw [List.cons_prefix_cons, List.cons_prefix_cons]
    exact ⟨fun hp => ih.1 hp.2, fun hp => ih.2 hp.2⟩

namespace Shape.Opens

variable {shape : Shape} {type : TypeRef} {selections : List Selection}
variable {positions : List Position}

/-- The positions of a value are in order. -/
theorem pairwise_precedes (ho : shape.Opens scope type selections positions) :
    positions.Pairwise fun first second => shape.Precedes scope first.step second.step := by
  cases ho with
  | list _ =>
    rw [List.pairwise_map]
    exact List.pairwise_lt_range.imp fun h => .index h
  | @object _ _ type selections _ =>
    rw [Scope.fieldPositions, List.pairwise_map, List.pairwise_iff_forall_sublist]
    intro first second h
    refine .field ?_
    have hk := h.map (·.group.key)
    rw [Scope.keys_selectedFields] at hk
    exact hk.trans List.filter_sublist

/-- What a step from a value to a part reads is what stands at the position of the part. -/
theorem at?_assemble (ho : shape.Opens scope type selections positions)
    {entries : List (Position × Json)} (hp : entries.map (·.1) = positions) {position : Position}
    {data : Json} (he : (position, data) ∈ entries) (path : List PathElement) :
    (shape.assemble entries).at? (position.step :: path) = data.at? path := by
  cases ho with
  | @list item _ group _ count _ =>
    obtain ⟨index, hi⟩ := List.mem_iff_getElem?.mp he
    have hpos : ((List.range count).map (itemPosition item group))[index]? = some position := by
      rw [← hp, List.getElem?_map, hi, Option.map_some]
    rw [List.getElem?_map] at hpos
    obtain ⟨index', hr, rfl⟩ := Option.map_eq_some_iff.mp hpos
    obtain ⟨_, rfl⟩ := List.getElem?_eq_some_iff.mp hr
    rw [List.getElem_range]
    show ((entries.map (·.2))[index]?).bind _ = _
    rw [List.getElem?_map, hi]
    rfl
  | object _ =>
    have hpos := List.mem_map_of_mem (f := Prod.fst) he
    rw [hp] at hpos
    obtain ⟨field, hf, rfl⟩ := List.mem_map.mp hpos
    have hg : Entries.get? (entries.map fun entry => (entry.1.group.key, entry.2)) field.group.key =
        some data := by
      refine Entries.get?_of_mem ?_ (List.mem_map_of_mem he)
      rw [keys_entries hp]
      exact Scope.nodup_keys_selectedFields
    show (Entries.get? (entries.map fun entry => (entry.1.group.key, entry.2))
      field.group.key).bind _ = _
    rw [hg]
    rfl

end Shape.Opens

end Order

/-! ## 3. The errors of a trace -/

section Errors

variable {scope : Scope} {extent : Extent} {shape : Shape} {type : TypeRef}
variable {selections : List Selection} {positions : List Position}
variable {children : List (Position × Trace)} {trace : Trace}

theorem Through.pairwise_precedes (h : Through extent positions children)
    (ho : shape.Opens scope type selections positions) :
    children.Pairwise fun first second => shape.Precedes scope first.1.step second.1.step := by
  have hp := ho.pairwise_precedes.sublist h.isPrefix.sublist
  rwa [List.pairwise_map] at hp

theorem Trace.Fits.pairwise_before (h : trace.Fits scope extent type selections) :
    trace.errors.Pairwise fun first second => trace.Before scope first.path second.path := by
  induction h with
  | null _ => exact List.Pairwise.nil
  | leaf _ _ => exact List.Pairwise.nil
  | fault _ => exact List.pairwise_singleton _ _
  | @parts type selections shape positions children ho ht _ ih =>
    rw [errors, partErrors_eq_flatMap, List.pairwise_flatMap]
    constructor
    · -- Two errors of one part differ inside it.
      intro child hm
      rw [List.pairwise_map]
      exact (ih child hm).imp fun h => .inside hm h
    · -- Errors of two parts differ at the first step, and the parts are in order.
      refine (ht.pairwise_precedes ho).imp fun hs first hf second hg => ?_
      obtain ⟨inner, -, rfl⟩ := List.mem_map.mp hf
      obtain ⟨inner', -, rfl⟩ := List.mem_map.mp hg
      exact .here hs

/-- Along the path of an error, the data comes to null. -/
theorem Trace.Fits.reachesNull (h : trace.Fits scope extent type selections) {data : Json}
    (hr : trace.result = some data) {report : ErrorReport} (he : report ∈ trace.errors) :
    data.ReachesNull report.path := by
  induction h generalizing data report with
  | null _ => cases he
  | leaf _ _ => cases he
  | fault _ => cases hr
  | @parts type selections shape positions children ho ht _ ih =>
    rw [result] at hr
    obtain ⟨entries, hpr, rfl⟩ := Option.map_eq_some_iff.mp hr
    rw [errors, mem_partErrors] at he
    obtain ⟨⟨position, trace⟩, hm, inner, hi, rfl⟩ := he
    obtain ⟨data, hs, hentry⟩ := exists_entry_of_mem hpr hm
    have hat := fun path => ho.at?_assemble (ht.map_fst_eq hpr) hentry path
    rcases Position.settle_eq_some hs with hd | ⟨-, -, rfl⟩
    · obtain ⟨reached, hprefix, hnull⟩ := ih _ hm hd hi
      refine ⟨position.step :: reached, ?_, (hat reached).trans hnull⟩
      exact (List.prefix_cons_inj _).mpr hprefix
    · -- The failure has stopped here, so null stands at the position itself.
      refine ⟨[position.step], ?_, (hat []).trans rfl⟩
      exact (List.prefix_cons_inj _).mpr List.nil_prefix

/-- If a value fails, the last error has made its way to it. -/
theorem Trace.Fits.getLast?_errors (h : trace.Fits scope .untilFailure type selections)
    (hr : trace.result = none) :
    ∃ last, trace.errors.getLast? = some last ∧ trace.RequiredAlong last.path := by
  induction h with
  | null _ => cases hr
  | leaf _ _ => cases hr
  | @fault _ _ report hp =>
    refine ⟨report, rfl, ?_⟩
    rw [hp]
    exact .nil
  | @parts type selections shape positions children ho ht _ ih =>
    rw [result, Option.map_eq_none_iff] at hr
    -- Tracing ends at the first part that passes a failure on, so it is the last part.
    obtain ⟨before, child, rfl, hpass⟩ := ht.eq_concat hr
    rw [Position.passesOn, Option.isNone_iff_eq_none, Position.settle_eq_none_iff] at hpass
    have hm : child ∈ before ++ [child] := List.mem_append_right _ (List.mem_singleton_self _)
    obtain ⟨last, hl, hq⟩ := ih child hm hpass.1
    refine ⟨last.under child.1.step, ?_, .cons hm hpass.2 hq⟩
    rw [errors, partErrors_eq_flatMap, List.flatMap_append, List.flatMap_singleton,
      List.getLast?_append, List.getLast?_map, hl]
    rfl

end Errors

/-! ## 4. The errors of a response -/

/-- Error log soundness. Whenever an execution that has begun comes to a response: along the path of
each error, which is not empty, the data comes to null; no error's path is another's or a prefix of
it; errors stand in the order of their positions; and if the data is null, there is a last error and
all positions along its path exclude null. -/
theorem Execution.errorLog_sound {description : SchemaDescription} {schema : Schema}
    (hb : description.build = .ok schema) {σ : Type} {application : Application σ}
    {execution : Execution} {document : Document} {prepared : Prepared}
    (hp : execution.prepare schema document = .ok prepared) {s s' : σ} {response : Response}
    (hr : execution.Returns schema application document s response s') :
    (∀ report ∈ response.errors, report.path ≠ [] ∧
      ∃ reached, reached <+: report.path ∧ response.data.at? reached = some .null) ∧
    (response.errors.Pairwise fun first second =>
      ¬ first.path <+: second.path ∧ ¬ second.path <+: first.path) ∧
    ∃ trace, (execution.environment schema application document prepared).Traces .untilFailure
        prepared.rootType execution.root prepared.operation.selections s trace s' ∧
      trace.response = response ∧
      (response.errors.Pairwise fun first second =>
        trace.Before (prepared.scope schema document) first.path second.path) ∧
      (response.data = .null →
        ∃ last, response.errors.getLast? = some last ∧ trace.RequiredAlong last.path) := by
  obtain ⟨trace, ht, rfl⟩ := (returns_iff_traces hp).mp hr
  have hf := ht.fits ((SchemaDescription.builds hb).runtimeType_rootOf (prepare_eq_ok hp).2.1)
  rw [toScope_environment] at hf
  obtain ⟨children, rfl⟩ := ht.eq_parts
  have hbefore := hf.pairwise_before
  refine ⟨fun report he => ⟨?_, ?_⟩, hbefore.imp fun h => h.not_prefix, _, ht, rfl, hbefore, ?_⟩
  · obtain ⟨child, -, inner, -, rfl⟩ := Trace.mem_partErrors.mp he
    exact List.cons_ne_nil _ _
  · cases hpr : Trace.partResults children with
    | none =>
      rw [Trace.data_response_of_none hpr]
      exact ⟨[], List.nil_prefix, rfl⟩
    | some entries =>
      rw [Trace.data_response_of_some hpr]
      exact hf.reachesNull (by rw [Trace.result, hpr]; rfl) he
  · intro hd
    cases hpr : Trace.partResults children with
    | none => exact hf.getLast?_errors (by rw [Trace.result, hpr]; rfl)
    | some entries =>
      rw [Trace.data_response_of_some hpr] at hd
      cases hd

theorem Execution.errorLog_sound_sample :
    Sample.response.errors.map (·.path) = [[.field "first", .field "failing"]] ∧
    (∀ report ∈ Sample.response.errors, report.path ≠ [] ∧
      ∃ reached, reached <+: report.path ∧ Sample.response.data.at? reached = some .null) ∧
    ∃ trace, (environment {} Sample.schema Sample.application Sample.document
        Sample.prepared).Traces .untilFailure Sample.prepared.rootType .null
        Sample.operation.selections () trace () ∧
      trace.response = Sample.response := by
  obtain ⟨hnull, -, trace, ht, hr, -, -⟩ :=
    errorLog_sound Sample.build_eq_ok Sample.prepare_eq_ok Sample.returns
  exact ⟨by decide, hnull, trace, ht, hr⟩

end GraphQL
