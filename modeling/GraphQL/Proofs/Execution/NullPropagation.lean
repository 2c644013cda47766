import GraphQL.Proofs.Execution.ErrorLog
import GraphQL.Proofs.Execution.Termination

/-!
# `GraphQL/Proofs/Execution/NullPropagation.lean` — stopping early loses nothing but later errors

The plain meaning of null propagation has no order in it: execute everything, and then work from the
leaves to the root, where a failure at a position that excludes null fails what encloses it. Tracing
in the whole extent is the first half, `Trace.result` the second. Execution does less. It leaves an
object or a list at the first part that passes a failure on, because nothing that comes after can
change the outcome.

`Trace.prune` is what leaving early does to a whole trace: it cuts off what comes after a part that
passes a failure on. Three facts about it make up the theorem. Execution finds the pruned trace
(`Cut.prune`, where it matters that there is no state which the parts left out could have changed);
pruning keeps the result (`Trace.result_prune`); and of the errors it removes exactly those under a
later sibling of a position that passes a failure on (`Trace.Shadowed`, `Trace.errors_prune`).
-/

set_option autoImplicit false

namespace GraphQL

/-! ## 1. Pruning -/

namespace Trace

mutual

/-- Cuts off what comes after a part that passes a failure on, at every level. -/
def prune : Trace → Trace
  | .data json => .data json
  | .fault report => .fault report
  | .parts shape children => .parts shape (pruneParts children)

/-- Prunes parts up to the first that passes a failure on. -/
def pruneParts : List (Position × Trace) → List (Position × Trace)
  | [] => []
  | (position, trace) :: rest =>
    if position.passesOn trace then [(position, prune trace)]
    else (position, prune trace) :: pruneParts rest

end

theorem partResults_pruneParts {children : List (Position × Trace)}
    (h : ∀ child ∈ children, child.2.prune.result = child.2.result) :
    partResults (pruneParts children) = partResults children := by
  induction children with
  | nil => rfl
  | cons child rest ih =>
    obtain ⟨position, trace⟩ := child
    rw [List.forall_mem_cons] at h
    have hh : trace.prune.result = trace.result := h.1
    rw [pruneParts]
    split
    · next hp =>
      rw [Position.passesOn, Option.isNone_iff_eq_none] at hp
      rw [partResults_cons, partResults_cons, hh, hp]
      rfl
    · rw [partResults_cons, partResults_cons, hh, ih h.2]

/-- What comes after a failure that is passed on makes no difference to the result. -/
@[simp] theorem result_prune (trace : Trace) : trace.prune.result = trace.result := by
  induction trace with
  | data json => rfl
  | fault report => rfl
  | parts shape children ih => rw [prune, result, result, partResults_pruneParts ih]

@[simp] theorem passesOn_prune (position : Position) (trace : Trace) :
    position.passesOn trace.prune = position.passesOn trace := by
  rw [Position.passesOn, Position.passesOn, result_prune]

/-! ## 2. Errors in the shadow of a failure -/

/-- A path leads through a later sibling of a position from which a failure is passed on into their
common parent. -/
inductive Shadowed : Trace → List PathElement → Prop where
  | here {shape : Shape} {before rest : List (Position × Trace)} {position : Position}
    {trace : Trace} {later : Position × Trace} {path : List PathElement}
    (hp : position.passesOn trace = true) (hl : later ∈ rest) :
    Shadowed (.parts shape (before ++ (position, trace) :: rest)) (later.1.step :: path)
  | inside {shape : Shape} {children : List (Position × Trace)} {position : Position}
    {trace : Trace} {path : List PathElement} (hm : (position, trace) ∈ children)
    (h : trace.Shadowed path) : Shadowed (.parts shape children) (position.step :: path)

mutual

/-- Whether a path is shadowed. -/
def isShadowed : Trace → List PathElement → Bool
  | .data _, _ => false
  | .fault _, _ => false
  | .parts _ children, path => isShadowedIn children path

/-- Whether a path into one of several parts is shadowed. -/
def isShadowedIn : List (Position × Trace) → List PathElement → Bool
  | (position, trace) :: rest, step :: path =>
    (position.step == step && isShadowed trace path) ||
      (position.passesOn trace && rest.any fun later => later.1.step == step) ||
      isShadowedIn rest (step :: path)
  | _, _ => false

end

theorem isShadowedIn_cons {position : Position} {trace : Trace} {rest : List (Position × Trace)}
    {step : PathElement} {path : List PathElement} :
    isShadowedIn ((position, trace) :: rest) (step :: path) = true ↔
      (position.step = step ∧ trace.isShadowed path = true) ∨
      (position.passesOn trace = true ∧ ∃ later ∈ rest, later.1.step = step) ∨
      isShadowedIn rest (step :: path) = true := by
  simp [isShadowedIn, or_assoc]

theorem Shadowed.isShadowed {trace : Trace} {path : List PathElement} (h : trace.Shadowed path) :
    trace.isShadowed path = true := by
  induction h with
  | @here shape before rest position trace later path hp hl =>
    rw [Trace.isShadowed]
    induction before with
    | nil => exact isShadowedIn_cons.mpr (Or.inr (Or.inl ⟨hp, later, hl, rfl⟩))
    | cons child before ih => exact isShadowedIn_cons.mpr (Or.inr (Or.inr ih))
  | @inside shape children position trace path hm _ ih =>
    rw [Trace.isShadowed]
    induction children with
    | nil => cases hm
    | cons child rest ihc =>
      rcases List.mem_cons.mp hm with rfl | hm
      · exact isShadowedIn_cons.mpr (Or.inl ⟨rfl, ih⟩)
      · exact isShadowedIn_cons.mpr (Or.inr (Or.inr (ihc hm)))

theorem shadowed_of_isShadowedIn {shape : Shape} {before rest : List (Position × Trace)}
    {path : List PathElement}
    (ih : ∀ child ∈ rest, ∀ path, child.2.isShadowed path = true → child.2.Shadowed path)
    (h : isShadowedIn rest path = true) : Shadowed (.parts shape (before ++ rest)) path := by
  induction rest generalizing before with
  | nil => cases path <;> cases h
  | cons child rest ihr =>
    cases path with
    | nil => cases h
    | cons step path =>
      rcases isShadowedIn_cons.mp h with ⟨rfl, hs⟩ | ⟨hp, later, hl, rfl⟩ | h
      · have hm : child ∈ before ++ child :: rest :=
          List.mem_append_right _ List.mem_cons_self
        exact .inside hm (ih child List.mem_cons_self path hs)
      · exact .here hp hl
      · rw [List.append_cons]
        exact ihr (fun other hm => ih other (List.mem_cons_of_mem _ hm)) h

theorem isShadowed_iff {trace : Trace} {path : List PathElement} :
    trace.isShadowed path = true ↔ trace.Shadowed path := by
  refine ⟨fun h => ?_, Shadowed.isShadowed⟩
  induction trace generalizing path with
  | data json => cases h
  | fault report => cases h
  | parts shape children ih =>
    rw [isShadowed] at h
    have hs : Shadowed (.parts shape ([] ++ children)) path :=
      shadowed_of_isShadowedIn (fun child hm path => ih child hm) h
    exact hs

instance (trace : Trace) (path : List PathElement) : Decidable (trace.Shadowed path) :=
  decidable_of_iff _ isShadowed_iff

/-! ## 3. The errors that are left -/

/-- No path below a step leads into parts at other steps. -/
theorem isShadowedIn_eq_false {rest : List (Position × Trace)} {step : PathElement}
    {path : List PathElement} (h : ∀ child ∈ rest, child.1.step ≠ step) :
    isShadowedIn rest (step :: path) = false := by
  induction rest with
  | nil => rfl
  | cons child rest ih =>
    rw [List.forall_mem_cons] at h
    rw [Bool.eq_false_iff]
    intro hs
    rcases isShadowedIn_cons.mp hs with ⟨he, -⟩ | ⟨-, later, hl, he⟩ | hs
    · exact h.1 he
    · exact h.2 later hl he
    · rw [ih h.2] at hs
      cases hs

/-- Among parts at different steps, pruning removes the errors that are shadowed. -/
theorem partErrors_pruneParts {children : List (Position × Trace)}
    (hd : children.Pairwise fun first second => first.1.step ≠ second.1.step)
    (h : ∀ child ∈ children, child.2.prune.errors =
      child.2.errors.filter fun report => !child.2.isShadowed report.path) :
    partErrors (pruneParts children) =
      (partErrors children).filter fun report => !isShadowedIn children report.path := by
  induction children with
  | nil => rfl
  | cons child rest ih =>
    obtain ⟨position, trace⟩ := child
    rw [List.pairwise_cons] at hd
    rw [List.forall_mem_cons] at h
    have hne : ∀ child ∈ rest, child.1.step ≠ position.step := fun child hm => (hd.1 child hm).symm
    have hhead : (trace.errors.map (·.under position.step)).filter
        (fun report => !isShadowedIn ((position, trace) :: rest) report.path) =
          trace.prune.errors.map (·.under position.step) := by
      rw [List.filter_map, h.1]
      refine congrArg (List.map _) (List.filter_congr fun inner _ => ?_)
      have hany : (rest.any fun later => later.1.step == position.step) = false := by
        rw [List.any_eq_false]
        intro later hl
        simpa using hne later hl
      simp [ErrorReport.under, isShadowedIn, hany, isShadowedIn_eq_false hne]
    have hrest : ∀ report ∈ partErrors rest,
        isShadowedIn ((position, trace) :: rest) report.path =
          (position.passesOn trace || isShadowedIn rest report.path) := by
      intro report hm
      obtain ⟨child, hc, inner, -, rfl⟩ := mem_partErrors.mp hm
      have hstep : (position.step == child.1.step) = false :=
        beq_eq_false_iff_ne.mpr (hd.1 child hc)
      have hany : (rest.any fun later => later.1.step == child.1.step) = true :=
        List.any_eq_true.mpr ⟨child, hc, beq_self_eq_true _⟩
      simp [ErrorReport.under, isShadowedIn, hstep, hany]
    rw [partErrors, List.filter_append, hhead, pruneParts]
    by_cases hp : position.passesOn trace = true
    · -- All errors of later parts are under a later sibling.
      have hnone : (partErrors rest).filter
          (fun report => !isShadowedIn ((position, trace) :: rest) report.path) = [] := by
        rw [List.filter_eq_nil_iff]
        intro report hm
        simp [hrest report hm, hp]
      rw [if_pos hp, hnone]
      rfl
    · rw [Bool.not_eq_true] at hp
      rw [hp, if_neg Bool.false_ne_true, partErrors, ih hd.2 h.2]
      refine congrArg (_ ++ ·) (List.filter_congr fun report hm => ?_)
      rw [hrest report hm, hp, Bool.false_or]

/-- Of the errors of everything, pruning removes those that are shadowed. -/
theorem Fits.errors_prune {scope : Scope} {type : TypeRef} {selections : List Selection}
    {trace : Trace} (h : trace.Fits scope .whole type selections) :
    trace.prune.errors = trace.errors.filter fun report => ¬ trace.Shadowed report.path := by
  have hbool : trace.prune.errors =
      trace.errors.filter fun report => !trace.isShadowed report.path := by
    induction h with
    | null _ => rfl
    | leaf _ _ => rfl
    | fault _ => rfl
    | @parts type selections shape positions children ho ht _ ih =>
      -- Parts are in order, so no two are at one step.
      exact partErrors_pruneParts ((ht.pairwise_precedes ho).imp fun h => h.ne) ih
  rw [hbool]
  refine List.filter_congr fun report _ => ?_
  rw [Bool.eq_iff_iff, decide_eq_true_iff, ← isShadowed_iff, Bool.not_eq_true', Bool.not_eq_true]

end Trace

/-! ## 4. Execution finds the pruned trace -/

/-- Without a state, tracing until a failure finds what tracing the whole finds, pruned. -/
theorem Cut.prune : Cut Unit .whole .untilFailure Trace.prune where
  data _ := by rw [Trace.prune]
  fault _ := by rw [Trace.prune]
  parts _ children := ⟨Trace.pruneParts children, by rw [Trace.prune]⟩
  loop {α position trace trace' all} ht shape := by
    have hp : Traced.Follows Trace.pruneParts (traceParts .whole position trace all)
        (traceParts .untilFailure position trace' all) := by
      induction all with
      | nil => exact .pure rfl
      | cons part rest ih =>
        intro s children s' h
        rw [traceParts, Traced.bind_apply, Option.bind_eq_some_iff] at h
        obtain ⟨⟨first, s₁⟩, hf, h⟩ := h
        dsimp only at h
        rw [if_neg (fun hs => by cases hs.1), Traced.bind_apply, Option.bind_eq_some_iff] at h
        obtain ⟨⟨others, s₂⟩, ho, h⟩ := h
        cases h
        rw [traceParts, Traced.bind_apply, ht part s first s₁ hf, Option.bind_some,
          Trace.pruneParts]
        dsimp only
        rw [Trace.passesOn_prune]
        by_cases hp : (position part).passesOn first = true
        · -- What the parts left out could have changed is the state, and there is none.
          rw [if_pos ⟨rfl, hp⟩, if_pos hp]
          rfl
        · rw [if_neg (fun hs => hp hs.2), if_neg hp, Traced.bind_apply, ih s₁ others s' ho]
          rfl
    exact hp.map fun children => by rw [Trace.prune]

theorem Trace.data_response_prune (trace : Trace) :
    trace.prune.response.data = trace.response.data := by
  rw [response, response, result_prune]

/-- Null propagation. If the behaviour of the application is a function of what it is given, then
an execution of a well nested operation has the data that is arrived at by executing everything and
propagating nulls afterwards; and its errors are those of executing everything, without those under
a later sibling of a position from which a null propagates into their common parent. -/
theorem Execution.returns_of_whole {description : SchemaDescription} {schema : Schema}
    (hb : description.build = .ok schema) (application : Application Unit) {execution : Execution}
    {document : Document} {prepared : Prepared}
    (hp : execution.prepare schema document = .ok prepared)
    (hn : WellNested document.fragments prepared.operation.selections) :
    ∃ whole response,
      (execution.environment schema application document prepared).Traces .whole
        prepared.rootType execution.root prepared.operation.selections () whole () ∧
      execution.Returns schema application document () response () ∧
      response.data = whole.response.data ∧
      response.errors = whole.errors.filter fun report => ¬ whole.Shadowed report.path := by
  let env := execution.environment schema application document prepared
  obtain ⟨depth, hd⟩ := hn.exists_bounded
  obtain ⟨whole, _, ht⟩ := env.traceSelections_total .whole hd prepared.rootType execution.root ()
  have htraces : env.Traces .whole prepared.rootType execution.root prepared.operation.selections
      () whole () := ⟨depth, ht⟩
  have hpruned : env.Traces .untilFailure prepared.rootType execution.root
      prepared.operation.selections () whole.prune () :=
    ⟨depth, Cut.prune.traceSelections env (Nat.le_refl depth) _ _ _ () whole () ht⟩
  have hf := htraces.fits
    ((SchemaDescription.builds hb).runtimeType_rootOf (prepare_eq_ok hp).2.1)
  exact ⟨whole, whole.prune.response, htraces, (returns_iff_traces hp).mpr ⟨_, hpruned, rfl⟩,
    whole.data_response_prune, hf.errors_prune⟩

namespace Sample

theorem isSome_traceSelections_whole :
    ((Execution.environment {} schema application document prepared).traceSelections .whole 3
      prepared.rootType .null prepared.operation.selections ()).isSome = true := by decide

/-- All that can happen in the execution, beyond the first failure. -/
def whole : Trace :=
  (((Execution.environment {} schema application document prepared).traceSelections .whole 3
    prepared.rootType .null prepared.operation.selections ()).get isSome_traceSelections_whole).1

theorem traces_whole : (Execution.environment {} schema application document prepared).Traces .whole
    prepared.rootType .null prepared.operation.selections () whole () :=
  ⟨3, (Option.some_get isSome_traceSelections_whole).symm⟩

end Sample

/-- Of two fields that fail below one that absorbs the failure, the second is not reported. -/
theorem Execution.returns_of_whole_sample : ∃ whole response,
    (environment {} Sample.schema Sample.application Sample.document Sample.prepared).Traces .whole
      Sample.prepared.rootType .null Sample.operation.selections () whole () ∧
    Returns {} Sample.schema Sample.application Sample.document () response () ∧
    response.data = whole.response.data ∧
    (response.errors = whole.errors.filter fun report => ¬ whole.Shadowed report.path) ∧
    whole.errors.map (·.path) =
      [[.field "first", .field "failing"], [.field "first", .field "other"]] ∧
    response.errors.map (·.path) = [[.field "first", .field "failing"]] := by
  obtain ⟨whole, response, ht, hr, hd, he⟩ := returns_of_whole Sample.build_eq_ok Sample.application
    Sample.prepare_eq_ok Sample.wellNested
  obtain ⟨rfl, -⟩ := ht.unique Sample.traces_whole
  obtain ⟨rfl, -⟩ := hr.unique Sample.returns
  exact ⟨Sample.whole, Sample.response, ht, hr, hd, he, by decide, by decide +kernel⟩

end GraphQL
