import GraphQL.Proofs.Execution.Serial

/-!
# `GraphQL/Proofs/Execution/Isolation.lean` — failures that stay where they are

A place that allows null keeps what happens inside it from its surroundings. Take a field of a
nullable type out of a selection set, or put another value in place of an item of a list whose items
may be null, and all that changes is that member of the data and the errors with a path through it;
so whatever fails inside stops no sibling, changes none, and touches none of their errors
(`Environment.isolates`).

The two runs are compared on an application without a state, since what runs inside a field may
otherwise be seen by the fields after it. Errors carry their paths from the inside out, so all
errors of a part begin with its own step (`Run.exists_under`), which tells them from the errors of
its siblings.
-/

set_option autoImplicit false

namespace GraphQL

/-! ## 1. Errors by their paths -/

/-- The same error, seen from the other end of a path. -/
def ErrorReport.within (path : List PathElement) (report : ErrorReport) : ErrorReport :=
  { report with path := path ++ report.path }

/-- The errors whose paths do not go through the end of a path. -/
def ErrorReport.outside (path : List PathElement) (errors : List ErrorReport) : List ErrorReport :=
  errors.filter fun report => !path.isPrefixOf report.path

namespace ErrorReport

variable {path : List PathElement} {step : PathElement} {errors others : List ErrorReport}

@[simp] theorem outside_append :
    outside path (errors ++ others) = outside path errors ++ outside path others :=
  List.filter_append _ _

/-- What is outside a place stays so if both are seen from further out. -/
theorem outside_map_within (inner : List PathElement) :
    outside (path ++ inner) (errors.map (within path)) =
      (outside inner errors).map (within path) := by
  have hprefix : ∀ report : ErrorReport,
      (path ++ inner).isPrefixOf (within path report).path = inner.isPrefixOf report.path := by
    intro report
    rw [Bool.eq_iff_iff, List.isPrefixOf_iff_prefix, List.isPrefixOf_iff_prefix]
    exact List.prefix_append_right_inj path
  simp only [outside, List.filter_map, Function.comp_def, hprefix]

theorem outside_of_under (h : ∀ report ∈ errors, ∃ inner : ErrorReport, report = inner.under step) :
    outside [step] errors = [] := by
  rw [outside, List.filter_eq_nil_iff]
  intro report hm
  obtain ⟨inner, rfl⟩ := h report hm
  simp [under]

theorem outside_of_under_ne {other : PathElement} (hne : step ≠ other)
    (h : ∀ report ∈ errors, ∃ inner : ErrorReport, report = inner.under other) :
    outside [step] errors = errors := by
  rw [outside, List.filter_eq_self]
  intro report hm
  obtain ⟨inner, rfl⟩ := h report hm
  simp [under, List.isPrefixOf, hne]

end ErrorReport

/-- An outcome without the entry of a key, and without the errors whose paths go through it. -/
def Outcome.erase (outcome : Outcome Json.Members) (path : List PathElement) (key : Name) :
    Outcome Json.Members where
  result := outcome.result.map fun members => members.filter fun entry => entry.1 ≠ key
  errors := ErrorReport.outside (path ++ [.field key]) outcome.errors

namespace Outcome

variable {outcome : Outcome Json.Members} {members : Json.Members} {errors : List ErrorReport}
variable {key other : Name}

/-- What has come of the key leaves nothing behind. -/
theorem erase_after_of_key (hm : ∀ entry ∈ members, entry.1 = other)
    (he : ∀ report ∈ errors, ∃ inner : ErrorReport, report = inner.under (.field other))
    (hk : other = key) : (outcome.after members errors).erase [] key = outcome.erase [] key := by
  subst hk
  have hnone : members.filter (fun entry => entry.1 ≠ other) = [] := by
    rw [List.filter_eq_nil_iff]
    intro entry hentry
    simpa using hm entry hentry
  have herrors : ErrorReport.outside [.field other] errors = [] := ErrorReport.outside_of_under he
  simp only [erase, after, List.nil_append, ErrorReport.outside_append, herrors, Option.map_map,
    Function.comp_def, List.filter_append, hnone]

/-- What has come of another key stays. -/
theorem erase_after_of_ne (hm : ∀ entry ∈ members, entry.1 = other)
    (he : ∀ report ∈ errors, ∃ inner : ErrorReport, report = inner.under (.field other))
    (hk : other ≠ key) :
    (outcome.after members errors).erase [] key = (outcome.erase [] key).after members errors := by
  have hall : members.filter (fun entry => entry.1 ≠ key) = members := by
    rw [List.filter_eq_self]
    intro entry hentry
    rw [hm entry hentry]
    exact decide_eq_true hk
  have hstep : PathElement.field key ≠ PathElement.field other := by
    simpa using hk.symm
  have herrors : ErrorReport.outside [.field key] errors = errors :=
    ErrorReport.outside_of_under_ne hstep he
  simp only [erase, after, List.nil_append, ErrorReport.outside_append, herrors, Option.map_map,
    Function.comp_def, List.filter_append, hall]

theorem erase_of_failure (hf : outcome.result = none)
    (he : ∀ report ∈ outcome.errors, ∃ inner : ErrorReport, report = inner.under (.field other))
    (hk : other ≠ key) : outcome.erase [] key = outcome := by
  have hstep : PathElement.field key ≠ PathElement.field other := by
    simpa using hk.symm
  have herrors : ErrorReport.outside [.field key] outcome.errors = outcome.errors :=
    ErrorReport.outside_of_under_ne hstep he
  obtain ⟨result, errors⟩ := outcome
  cases hf
  exact congrArg (Outcome.mk none) herrors

/-- Erasing below a path does not touch the path. -/
theorem erase_within (path : List PathElement) :
    { outcome with errors := outcome.errors.map (ErrorReport.within path) }.erase path key =
      { outcome.erase [] key with
        errors := (outcome.erase [] key).errors.map (ErrorReport.within path) } := by
  simp only [erase, ErrorReport.outside_map_within, List.nil_append]

end Outcome

namespace Run

variable {σ α : Type}

/-- The same run at the end of a path. -/
def within (path : List PathElement) (run : Run σ α) : Run σ α :=
  path.foldr under run

theorem within_apply (path : List PathElement) (run : Run σ α) (s : σ) :
    run.within path s = (run s).map fun (outcome, s') =>
      ({ outcome with errors := outcome.errors.map (·.within path) }, s') := by
  induction path with
  | nil =>
    show run s = _
    cases run s with
    | none => rfl
    | some first => simp [ErrorReport.within]
  | cons step path ih =>
    show under step (run.within path) s = _
    rw [under, ih]
    cases run s with
    | none => rfl
    | some first =>
      simp only [Option.map_some, List.map_map]
      rfl

/-- The errors of a part begin with its own step, also if the part absorbs its failure. -/
theorem exists_under {step : PathElement} {allowed : Bool} {null : α} {run : Run σ α} {s s' : σ}
    {outcome : Outcome α} (h : (run.under step).absorb allowed null s = some (outcome, s')) :
    ∀ report ∈ outcome.errors, ∃ inner : ErrorReport, report = inner.under step := by
  have hunder : ∀ errors : List ErrorReport, ∀ report ∈ errors.map (·.under step),
      ∃ inner : ErrorReport, report = inner.under step := by
    intro errors report hm
    obtain ⟨inner, -, rfl⟩ := List.mem_map.mp hm
    exact ⟨inner, rfl⟩
  simp only [absorb, under] at h
  cases hr : run s with
  | none =>
    rw [hr] at h
    cases h
  | some first =>
    obtain ⟨⟨result, errors⟩, t⟩ := first
    rw [hr] at h
    cases result with
    | some a =>
      cases h
      exact hunder errors
    | none =>
      cases allowed with
      | true =>
        cases h
        exact hunder errors
      | false =>
        cases h
        exact hunder errors

/-- A run that comes to something in every state. -/
def Total (run : Run σ α) : Prop :=
  ∀ s, ∃ outcome s', run s = some (outcome, s')

theorem Total.under {run : Run σ α} (h : run.Total) (step : PathElement) :
    (run.under step).Total := by
  intro s
  obtain ⟨outcome, s', hr⟩ := h s
  exact ⟨_, s', by rw [Run.under, hr]⟩

theorem Total.absorb {run : Run σ α} (h : run.Total) (allowed : Bool) (null : α) :
    (run.absorb allowed null).Total := by
  intro s
  obtain ⟨⟨result, errors⟩, s', hr⟩ := h s
  rw [Run.absorb, hr]
  cases result with
  | none => exact ⟨_, _, rfl⟩
  | some a => exact ⟨_, _, rfl⟩

end Run

/-! ## 2. Groups -/

namespace Environment

variable {σ : Type} {env : Environment σ}
variable {execute : ObjectType → Value → List Selection → Run σ Json.Members}
variable {type : ObjectType} {source : Value}

namespace RunsGroup

variable {group : FieldGroup} {s s' : σ} {outcome : Outcome Json.Members}

/-- A group has no entry but its own. -/
theorem key_of_mem (h : env.RunsGroup execute type source group s outcome s')
    {members : Json.Members} (hm : outcome.result = some members) :
    ∀ entry ∈ members, entry.1 = group.key := by
  cases h with
  | missing =>
    cases hm
    exact List.forall_mem_nil _
  | resolved =>
    obtain ⟨data, -, rfl⟩ := Option.map_eq_some_iff.mp hm
    exact List.forall_mem_singleton.mpr rfl

theorem exists_under (h : env.RunsGroup execute type source group s outcome s') :
    ∀ report ∈ outcome.errors, ∃ inner : ErrorReport, report = inner.under (.field group.key) := by
  cases h with
  | missing => exact List.forall_mem_nil _
  | @resolved _ _ _ _ inner _ _ hc =>
    have hinner : ∀ report ∈ inner.errors, ∃ within : ErrorReport,
        report = within.under (.field group.key) := Run.exists_under hc
    exact hinner

/-- A field of a nullable type does not fail what encloses it. -/
theorem exists_members (h : env.RunsGroup execute type source group s outcome s')
    (hn : ∀ found, env.schema.field? type group.first.name = some found →
      found.definition.type.required = false) : ∃ members, outcome.result = some members := by
  cases h with
  | missing => exact ⟨_, rfl⟩
  | @resolved found _ _ _ outcome hf _ hc =>
    unfold completeAnswer at hc
    rw [hn found hf] at hc
    obtain ⟨data, hd⟩ := Option.isSome_iff_exists.mp (Run.isSome_result_of_absorb_true hc)
    exact ⟨_, congrArg (Option.map _) hd⟩

end RunsGroup

/-- Without the group of a key, groups come to what they come to with it, less its entry and its
errors. -/
theorem executeGroups_erase {env : Environment Unit}
    {execute : ObjectType → Value → List Selection → Run Unit Json.Members} {key : Name}
    {groups : List FieldGroup}
    (hn : ∀ group ∈ groups, group.key = key → ∀ found,
      env.schema.field? type group.first.name = some found →
      found.definition.type.required = false)
    {outcome : Outcome Json.Members}
    (h : env.executeGroups execute type source groups () = some (outcome, ())) :
    env.executeGroups execute type source (groups.filter fun group => group.key ≠ key) () =
      some (outcome.erase [] key, ()) := by
  induction groups generalizing outcome with
  | nil =>
    cases h
    rfl
  | cons group rest ih =>
    rw [List.forall_mem_cons] at hn
    by_cases hk : group.key = key
    · rw [List.filter_cons_of_neg (by simpa using hk)]
      rcases executeGroups_eq_some h with ⟨hf, hg⟩ | ⟨members, errors, _, others, hg, hr, rfl⟩
      · obtain ⟨members, hm⟩ := (runsGroup hg).exists_members (hn.1 hk)
        rw [hf] at hm
        cases hm
      · -- The group comes to its entry and its errors, and to nothing that is kept.
        rw [Outcome.erase_after_of_key ((runsGroup hg).key_of_mem rfl)
          (runsGroup hg).exists_under hk]
        exact ih hn.2 hr
    · rw [List.filter_cons_of_pos (by simpa using hk)]
      rcases executeGroups_eq_some h with ⟨hf, hg⟩ | ⟨members, errors, _, others, hg, hr, rfl⟩
      · rw [Outcome.erase_of_failure hf (runsGroup hg).exists_under hk]
        exact executeGroups_of_failure hf hg _
      · rw [Outcome.erase_after_of_ne ((runsGroup hg).key_of_mem rfl)
          (runsGroup hg).exists_under hk]
        exact executeGroups_of_members hg (ih hn.2 hr)

end Environment

/-! ## 3. Items -/

section Items

variable {run : Value → Run Unit Json} {item : TypeRef}

/-- An item that may be null comes to data, whatever happens inside it. -/
theorem exists_item_data (ht : ∀ value, (run value).Total) (hi : item.required = false)
    (position : Nat) (value : Value) : ∃ data errors,
      ((run value).under (.index position)).absorb (!item.required) .null () =
        some ({ result := some data, errors }, ()) ∧
      ∀ report ∈ errors, ∃ inner : ErrorReport, report = inner.under (.index position) := by
  obtain ⟨⟨result, errors⟩, _, hs⟩ := ((ht value).under (.index position)).absorb true .null ()
  obtain ⟨data, rfl⟩ := Option.isSome_iff_exists.mp (Run.isSome_result_of_absorb_true hs)
  rw [hi]
  exact ⟨data, errors, hs, Run.exists_under hs⟩

/-- One item and the rest of a list, completed. -/
theorem completeItems_cons {position : Nat} {value : Value} {rest : List Value} {data : Json}
    {others : List Json} {errors errors' : List ErrorReport}
    (hv : ((run value).under (.index position)).absorb (!item.required) .null () =
      some ({ result := some data, errors }, ()))
    (hr : completeItems run item (position + 1) rest () =
      some ({ result := some others, errors := errors' }, ())) :
    completeItems run item position (value :: rest) () =
      some ({ result := some (data :: others), errors := errors ++ errors' }, ()) := by
  rw [completeItems, Run.bind_apply, Run.bind, hv]
  dsimp only
  rw [Run.bind_apply, Run.bind, hr]
  simp [Run.pure_apply]

/-- Another value in place of an item changes the data at its index, and the errors through it. -/
theorem completeItems_set (ht : ∀ value, (run value).Total) (hi : item.required = false)
    (value : Value) (position index : Nat) (items : List Value) :
    ∃ datas data errors errors',
      completeItems run item position items () = some ({ result := some datas, errors }, ()) ∧
      completeItems run item position (items.set index value) () =
        some ({ result := some (datas.set index data), errors := errors' }, ()) ∧
      datas.length = items.length ∧
      ErrorReport.outside [.index (position + index)] errors =
        ErrorReport.outside [.index (position + index)] errors' := by
  induction items generalizing position index with
  | nil => exact ⟨[], .null, [], [], rfl, rfl, rfl, rfl⟩
  | cons first rest ih =>
    obtain ⟨data, errors, hf, hunder⟩ := exists_item_data ht hi position first
    cases index with
    | zero =>
      obtain ⟨others, _, errors', _, hr, -, hlength, -⟩ := ih (position + 1) 0
      obtain ⟨data', errors'', hv, hunder'⟩ := exists_item_data ht hi position value
      refine ⟨_, data', _, _, completeItems_cons hf hr, completeItems_cons hv hr,
        congrArg (· + 1) hlength, ?_⟩
      rw [ErrorReport.outside_append, ErrorReport.outside_append, Nat.add_zero,
        ErrorReport.outside_of_under hunder, ErrorReport.outside_of_under hunder']
    | succ index =>
      obtain ⟨others, data', errors', errors'', hr, hr', hlength, ho⟩ := ih (position + 1) index
      refine ⟨_, data', _, _, completeItems_cons hf hr, completeItems_cons hf hr',
        congrArg (· + 1) hlength, ?_⟩
      rw [Nat.add_right_comm] at ho
      rw [ErrorReport.outside_append, ErrorReport.outside_append, ← Nat.add_assoc, ho]

/-- A list whose items come to data is an array, at any list type. -/
theorem complete_list {schema : Schema} {application : Application Unit}
    {execute : ObjectType → Value → List Selection → Run Unit Json.Members} {group : FieldGroup}
    {required : Bool} {items : List Value} {datas : List Json} {errors : List ErrorReport}
    (h : completeItems (complete schema application execute group item) item 0 items () =
      some ({ result := some datas, errors }, ())) :
    complete schema application execute group (.list item required) (.list items) () =
      some ({ result := some (.array datas), errors }, ()) := by
  have harray : (do return .array (← completeItems (complete schema application execute group item)
      item 0 items) : Run Unit Json) () = some ({ result := some (.array datas), errors }, ()) := by
    rw [Run.bind_apply, Run.bind, h]
    simp [Run.pure_apply]
  rw [complete, excludeNull, Run.bind_apply, Run.bind, harray]
  simp [Run.pure_apply, Json.isNull]

end Items

/-! ## 4. Executions of a bounded depth -/

namespace Environment

theorem executeSelections_total {σ : Type} (env : Environment σ) {depth : Nat}
    {selections : List Selection} (hb : Bounded env.fragments depth selections) (type : ObjectType)
    (source : Value) : (env.executeSelections depth type source selections).Total := by
  intro s
  obtain ⟨trace, s', ht⟩ := env.traceSelections_total .untilFailure hb type source s
  have hrun := congrFun (env.executeSelections_eq_toRun depth type source selections) s
  rw [Run.map_apply, Traced.toRun, Traced.run, ht, Option.map_some, Option.map_eq_some_iff] at hrun
  obtain ⟨⟨outcome, s₁⟩, hr, -⟩ := hrun
  exact ⟨outcome, s₁, hr⟩

theorem complete_total {σ : Type} (env : Environment σ) {depth : Nat} {group : FieldGroup}
    (hb : Bounded env.fragments depth group.selections) (type : TypeRef) (value : Value) :
    (complete env.schema env.application (env.executeSelections depth) group type value).Total := by
  intro s
  obtain ⟨trace, s', ht⟩ := traceValue_total
    (fun type value => env.traceSelections_total .untilFailure hb type value) type value s
  rw [complete_eq_toRun (env.executeSelections_eq_toRun depth), Traced.toRun, Traced.run, ht]
  exact ⟨_, _, rfl⟩

section Path

variable {env : Environment Unit} (hacyclic : Acyclic env.fragments) (path : List PathElement)
include hacyclic

theorem exists_field_bound {type : ObjectType} (source : Value) {selections : List Selection}
    {group : FieldGroup} (hg : group ∈ env.collectGroups type.name selections)
    (hn : ∀ found, env.schema.field? type group.first.name = some found →
      found.definition.type.required = false) :
    ∃ bound, ∀ depth, bound ≤ depth → ∃ outcome,
      (env.executeGroups (env.executeSelections depth) type source
          (env.collectGroups type.name selections)).within path () = some (outcome, ()) ∧
        (env.executeGroups (env.executeSelections depth) type source
            ((env.collectGroups type.name selections).filter fun other =>
              other.key ≠ group.key)).within path () = some (outcome.erase path group.key, ()) := by
  obtain ⟨bound, hb⟩ := (hacyclic.wellNested selections).exists_bounded
  refine ⟨bound, fun depth hd => ?_⟩
  obtain ⟨outcome, _, hr⟩ := env.executeSelections_total (hb.mono (hd.trans (Nat.le_succ depth)))
    type source ()
  have hothers : ∀ other ∈ env.collectGroups type.name selections, other.key = group.key →
      ∀ found, env.schema.field? type other.first.name = some found →
        found.definition.type.required = false := by
    intro other ho hk
    -- No two groups have one key.
    rw [List.inj_on_of_nodup_map (FieldGroup.nodup_keys_ofNodes _) ho hg hk]
    exact hn
  refine ⟨{ outcome with errors := outcome.errors.map (·.within path) }, ?_, ?_⟩
  · rw [Run.within_apply]
    exact congrArg (Option.map _) hr
  · rw [Run.within_apply, executeGroups_erase hothers hr, Outcome.erase_within]
    rfl

theorem exists_item_bound (group : FieldGroup) {item : TypeRef} (hi : item.required = false)
    (required : Bool) (items : List Value) (index : Nat) (value : Value) :
    ∃ bound, ∀ depth, bound ≤ depth → ∃ datas data errors errors',
      (complete env.schema env.application (env.executeSelections depth) group
          (.list item required) (.list items)).within path () =
        some ({ result := some (.array datas), errors }, ()) ∧
      (complete env.schema env.application (env.executeSelections depth) group
          (.list item required) (.list (items.set index value))).within path () =
        some ({ result := some (.array (datas.set index data)), errors := errors' }, ()) ∧
      datas.length = items.length ∧
      ErrorReport.outside (path ++ [.index index]) errors =
        ErrorReport.outside (path ++ [.index index]) errors' := by
  obtain ⟨bound, hb⟩ := (hacyclic.wellNested group.selections).exists_bounded
  refine ⟨bound, fun depth hd => ?_⟩
  obtain ⟨datas, data, errors, errors', hr, hr', hlength, ho⟩ := completeItems_set
    (env.complete_total (hb.mono hd) item) hi value 0 index items
  rw [Nat.zero_add] at ho
  refine ⟨datas, data, errors.map (·.within path), errors'.map (·.within path), ?_, ?_, hlength, ?_⟩
  · rw [Run.within_apply, complete_list hr]
    rfl
  · rw [Run.within_apply, complete_list hr']
    rfl
  · rw [ErrorReport.outside_map_within, ErrorReport.outside_map_within, ho]

end Path

/-- A place that allows null keeps what happens inside it from its surroundings, at every path. A
group of a nullable field can be taken out of a selection set without any other effect than that its
entry is missing, and the errors through it. And an item of a list whose items may be null can be
replaced without any other effect than at its index. -/
theorem isolates (env : Environment Unit) (hacyclic : Acyclic env.fragments)
    (path : List PathElement) :
    (∀ (type : ObjectType) (source : Value) (selections : List Selection),
      ∀ group ∈ env.collectGroups type.name selections,
      (∀ found, env.schema.field? type group.first.name = some found →
        found.definition.type.required = false) →
      ∃ bound, ∀ depth, bound ≤ depth → ∃ outcome,
        let groups := env.collectGroups type.name selections
        let run := fun groups => (env.executeGroups (env.executeSelections depth) type source
          groups).within path
        run groups () = some (outcome, ()) ∧
          run (groups.filter fun other => other.key ≠ group.key) () =
            some (outcome.erase path group.key, ())) ∧
    ∀ (group : FieldGroup) (item : TypeRef) (required : Bool) (items : List Value) (index : Nat)
      (value : Value), item.required = false → index < items.length →
      ∃ bound, ∀ depth, bound ≤ depth → ∃ datas data errors errors',
        let run := fun items => (complete env.schema env.application (env.executeSelections depth)
          group (.list item required) (.list items)).within path
        run items () = some ({ result := some (.array datas), errors }, ()) ∧
          run (items.set index value) () =
            some ({ result := some (.array (datas.set index data)), errors := errors' }, ()) ∧
          datas.length = items.length ∧
          ErrorReport.outside (path ++ [.index index]) errors =
            ErrorReport.outside (path ++ [.index index]) errors' := by
  constructor
  · intro type source selections group hg hn
    exact exists_field_bound hacyclic path source hg hn
  · intro group item required items index value hi _
    exact exists_item_bound hacyclic path group hi required items index value

end Environment

/-! ## 5. A failure to look at -/

namespace Sample

/-- A query without fragments. -/
def environment : Environment Unit :=
  Execution.environment {} schema application { document with fragments := [] } prepared

/-- The field `first` fails inside, and the field beside it does not. -/
def siblings : List Selection :=
  [field (some "first") "self" [field none "failing" []], field none "name" []]

def failingGroup : FieldGroup where
  key := "first"
  first := {
    location := .start, aliased := some "first", name := "self", arguments := [], directives := []
    selections := [field none "failing" []] }
  more := []

theorem acyclic_environment : Acyclic environment.fragments :=
  fun _ _ h => List.not_mem_nil h.mem

theorem mem_failingGroup :
    failingGroup ∈ environment.collectGroups schema.query.name siblings := by
  have hgroups : ∃ rest, environment.collectGroups schema.query.name siblings =
      failingGroup :: rest := ⟨_, rfl⟩
  obtain ⟨rest, hr⟩ := hgroups
  rw [hr]
  exact List.mem_cons_self

theorem nullable_failingGroup (found : FoundField)
    (hf : environment.schema.field? schema.query failingGroup.first.name = some found) :
    found.definition.type.required = false := by
  obtain ⟨definition, hd, ht⟩ := field?_self
  have he : some (FoundField.declared definition) = some found := hd.symm.trans hf
  cases he
  rw [FoundField.definition, ht]
  rfl

end Sample

theorem Environment.isolates_sample : Acyclic Sample.environment.fragments ∧
    (∃ bound, ∀ depth, bound ≤ depth → ∃ outcome,
      let groups := Sample.environment.collectGroups Sample.schema.query.name Sample.siblings
      let run := fun groups => (Sample.environment.executeGroups
        (Sample.environment.executeSelections depth) Sample.schema.query (.map [])
          groups).within [.field "top"]
      run groups () = some (outcome, ()) ∧
        run (groups.filter fun other => other.key ≠ "first") () =
          some (outcome.erase [.field "top"] "first", ())) ∧
    ∃ bound, ∀ depth, bound ≤ depth → ∃ datas data errors errors',
      let run := fun items => (complete Sample.environment.schema Sample.environment.application
        (Sample.environment.executeSelections depth) Sample.failingGroup
          (.list (.named "Query" false) true) (.list items)).within [.field "top"]
      run [.map [], .map []] () = some ({ result := some (.array datas), errors }, ()) ∧
        run [.map [], .null] () =
          some ({ result := some (.array (datas.set 1 data)), errors := errors' }, ()) ∧
        datas.length = 2 ∧
        ErrorReport.outside [.field "top", .index 1] errors =
          ErrorReport.outside [.field "top", .index 1] errors' := by
  refine ⟨Sample.acyclic_environment, ?_, ?_⟩
  · exact (isolates Sample.environment Sample.acyclic_environment [.field "top"]).1
      Sample.schema.query (.map []) Sample.siblings Sample.failingGroup Sample.mem_failingGroup
      Sample.nullable_failingGroup
  · exact (isolates Sample.environment Sample.acyclic_environment [.field "top"]).2
      Sample.failingGroup (.named "Query" false) true [.map [], .map []] 1 .null rfl
      (Nat.lt_succ_self 1)

end GraphQL
