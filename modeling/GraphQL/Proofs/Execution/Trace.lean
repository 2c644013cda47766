import GraphQL.Execution.Fields

/-!
# `GraphQL/Proofs/Execution/Trace.lean` — what happened at every position

An `Outcome` says what a part of an execution came to, and no more: once a failure has passed
through an object, nothing tells which fields the object had. Statements about paths need that, so
they are made about a `Trace`. A trace is the tree of all positions that were come to, each with
its declared type and the field nodes it answers, and at the leaves what came out there.

A trace is *before* null propagation. Whether a failure stops at a position or is passed on to what
encloses it is read off the tree afterwards, bottom up (`Trace.result`), and so is the error log
(`Trace.errors`). That an execution comes to exactly what its trace says is the subject of
`GraphQL/Proofs/Execution/Tracing.lean`.
-/

set_option autoImplicit false

namespace GraphQL

/-! ## 1. Positions -/

/-- A position in a response, as it is seen from the value that encloses it. -/
structure Position where
  /-- The step that leads to it. -/
  step : PathElement
  /-- The declared type. -/
  type : TypeRef
  /-- The field nodes that are answered here; the items of a list share those of their field. -/
  group : FieldGroup
  deriving Inhabited

/-- What stands at a position: the data that was arrived at; after a failure null, if null is
allowed; else nothing, and the failure is passed on. -/
def Position.settle (position : Position) : Option Json → Option Json
  | some data => some data
  | none => if position.type.required then none else some .null

theorem Position.settle_eq_none_iff {position : Position} {data : Option Json} :
    position.settle data = none ↔ data = none ∧ position.type.required = true := by
  cases data with
  | none => simp [settle]
  | some data => simp [settle]

/-- Null stands after a failure, and only where null is allowed. -/
theorem Position.settle_eq_some {position : Position} {result : Option Json} {data : Json}
    (hs : position.settle result = some data) :
    result = some data ∨ result = none ∧ position.type.required = false ∧ data = .null := by
  cases result with
  | some other => exact Or.inl hs
  | none =>
    unfold settle at hs
    cases hr : position.type.required with
    | true => simp [hr] at hs
    | false =>
      simp only [hr, Bool.false_eq_true, if_false, Option.some.injEq] at hs
      exact Or.inr ⟨rfl, rfl, hs.symm⟩

/-! ## 2. Traces -/

/-- A value with parts: a list, or an object of a known type with the selections executed on it. -/
inductive Shape where
  | list
  | object (type : ObjectType) (selections : List Selection)

/-- Puts a value together from what stands at the positions of its parts. -/
def Shape.assemble : Shape → List (Position × Json) → Json
  | .list, entries => .array (entries.map (·.2))
  | .object _ _, entries => .object (entries.map fun entry => (entry.1.group.key, entry.2))

@[simp] theorem Shape.isNull_assemble (shape : Shape) (entries : List (Position × Json)) :
    (shape.assemble entries).isNull = false := by
  cases shape <;> rfl

/-- What happened at a position. -/
inductive Trace where
  /-- Data without parts came out: a leaf, or null. -/
  | data (json : Json)
  /-- The value failed by itself. -/
  | fault (report : ErrorReport)
  /-- The value has parts. -/
  | parts (shape : Shape) (children : List (Position × Trace))

namespace Trace

/-- Induction over a trace: into all parts of a value at once. -/
@[induction_eliminator]
theorem induct {P : Trace → Prop} (data : ∀ json, P (.data json))
    (fault : ∀ report, P (.fault report))
    (parts : ∀ shape children, (∀ child ∈ children, P child.2) → P (.parts shape children))
    (trace : Trace) : P trace := by
  refine @Trace.rec P (fun children => ∀ child ∈ children, P child.2) (fun child => P child.2)
    data fault parts ?_ ?_ ?_ trace
  · intro child h
    cases h
  · intro head rest hHead hRest child h
    rcases List.mem_cons.mp h with rfl | h
    · exact hHead
    · exact hRest child h
  · intro _ _ h
    exact h

/-! ## 3. Null propagation, bottom up -/

mutual

/-- The data that a value comes to, or nothing if it fails: by itself, or because a part passes a
failure on. -/
def result : Trace → Option Json
  | .data json => some json
  | .fault _ => none
  | .parts shape children => (partResults children).map shape.assemble

/-- What stands at each of several positions, if no failure is passed on from any of them. -/
def partResults : List (Position × Trace) → Option (List (Position × Json))
  | [] => some []
  | (position, trace) :: rest => do
    let data ← position.settle (result trace)
    let others ← partResults rest
    return (position, data) :: others

end

mutual

/-- The errors that were reported, in order, as seen from the value itself. -/
def errors : Trace → List ErrorReport
  | .data _ => []
  | .fault report => [report]
  | .parts _ children => partErrors children

/-- The errors of several parts, one after the other, as seen from what encloses them. -/
def partErrors : List (Position × Trace) → List ErrorReport
  | [] => []
  | (position, trace) :: rest =>
    (errors trace).map (·.under position.step) ++ partErrors rest

end

/-- The outcome that a trace tells of. -/
def outcome (trace : Trace) : Outcome Json :=
  { result := trace.result, errors := trace.errors }

/-- The outcome of several parts. -/
def partOutcome (children : List (Position × Trace)) : Outcome (List (Position × Json)) :=
  { result := partResults children, errors := partErrors children }

theorem partErrors_eq_flatMap (children : List (Position × Trace)) :
    partErrors children =
      children.flatMap fun child => child.2.errors.map (·.under child.1.step) := by
  induction children with
  | nil => rfl
  | cons child rest ih => rw [partErrors, ih, List.flatMap_cons]

/-- Every error of a value with parts is one of a part, with the step to that part in front. -/
theorem mem_partErrors {children : List (Position × Trace)} {report : ErrorReport} :
    report ∈ partErrors children ↔
      ∃ child ∈ children, ∃ inner ∈ child.2.errors, inner.under child.1.step = report := by
  rw [partErrors_eq_flatMap, List.mem_flatMap]
  simp only [List.mem_map]

end Trace

/-- Whether a failure is passed on from a position to what encloses it. -/
def Position.passesOn (position : Position) (trace : Trace) : Bool :=
  (position.settle trace.result).isNone

namespace Trace

theorem partResults_cons (position : Position) (trace : Trace) (rest : List (Position × Trace)) :
    partResults ((position, trace) :: rest) =
      (position.settle trace.result).bind fun data =>
        (partResults rest).map ((position, data) :: ·) := by
  rw [partResults]
  cases position.settle trace.result with
  | none => rfl
  | some data => cases partResults rest <;> rfl

/-- Where one part passes a failure on, the whole fails. -/
theorem partResults_eq_none_iff {children : List (Position × Trace)} :
    partResults children = none ↔ ∃ child ∈ children, child.1.passesOn child.2 = true := by
  induction children with
  | nil => simp [partResults]
  | cons child rest ih =>
    obtain ⟨position, trace⟩ := child
    simp only [partResults_cons, List.mem_cons, exists_eq_or_imp]
    unfold Position.passesOn
    cases hs : position.settle trace.result with
    | none => simp
    | some data =>
      simp only [Option.bind_some, Option.map_eq_none_iff, Option.isNone_some,
        Bool.false_eq_true, false_or]
      exact ih

/-- Where no failure is passed on, each part contributes what stands at its position. -/
theorem map_partResults {children : List (Position × Trace)} {entries : List (Position × Json)}
    (hr : partResults children = some entries) :
    children.map (fun child => (child.1, child.1.settle child.2.result)) =
      entries.map fun entry => (entry.1, some entry.2) := by
  induction children generalizing entries with
  | nil =>
    cases hr
    rfl
  | cons child rest ih =>
    obtain ⟨position, trace⟩ := child
    rw [partResults_cons, Option.bind_eq_some_iff] at hr
    obtain ⟨data, hd, hr⟩ := hr
    obtain ⟨others, ho, rfl⟩ := Option.map_eq_some_iff.mp hr
    rw [List.map_cons, List.map_cons, ih ho, hd]

theorem map_fst_partResults {children : List (Position × Trace)}
    {entries : List (Position × Json)} (hr : partResults children = some entries) :
    entries.map (·.1) = children.map (·.1) := by
  have hm := congrArg (List.map Prod.fst) (map_partResults hr)
  rw [List.map_map, List.map_map] at hm
  exact hm.symm

theorem mem_partResults {children : List (Position × Trace)} {entries : List (Position × Json)}
    (hr : partResults children = some entries) {position : Position} {data : Json} :
    (position, data) ∈ entries ↔
      ∃ trace, (position, trace) ∈ children ∧ position.settle trace.result = some data := by
  have hm : (position, some data) ∈ entries.map (fun entry => (entry.1, some entry.2)) ↔
      (position, some data) ∈
        children.map fun child => (child.1, child.1.settle child.2.result) := by
    rw [map_partResults hr]
  rw [List.mem_map, List.mem_map] at hm
  constructor
  · intro he
    obtain ⟨⟨other, trace⟩, hc, h⟩ := hm.mp ⟨_, he, rfl⟩
    obtain ⟨rfl, hs⟩ := Prod.mk.inj h
    exact ⟨trace, hc, hs⟩
  · rintro ⟨trace, hc, hs⟩
    obtain ⟨⟨other, data'⟩, he, h⟩ := hm.mpr ⟨_, hc, by rw [hs]⟩
    cases h
    exact he

/-- Where no failure is passed on, something stands at the position of each part. -/
theorem exists_entry_of_mem {children : List (Position × Trace)}
    {entries : List (Position × Json)} (hr : partResults children = some entries)
    {position : Position} {trace : Trace} (hm : (position, trace) ∈ children) :
    ∃ data, position.settle trace.result = some data ∧ (position, data) ∈ entries := by
  cases hs : position.settle trace.result with
  | none =>
    have hn : partResults children = none :=
      partResults_eq_none_iff.mpr ⟨_, hm, by rw [Position.passesOn, hs]; rfl⟩
    rw [hr] at hn
    cases hn
  | some data => exact ⟨data, rfl, (mem_partResults hr).mpr ⟨trace, hm, hs⟩⟩

end Trace

end GraphQL
