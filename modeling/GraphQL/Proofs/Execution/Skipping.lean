import GraphQL.Proofs.Execution.FragmentInlining
import GraphQL.Proofs.Execution.Grouping
import GraphQL.Proofs.Execution.Passes
import GraphQL.Proofs.Execution.Response
import GraphQL.Proofs.Input.Reading

/-!
# `GraphQL/Proofs/Execution/Skipping.lean` — skipping is deleting

Once the variables of an operation have their values, it is settled for every `skip` and `include`
in a document what it comes to, and the document can be rewritten without them: what they exclude is
deleted, a fragment that they exclude is left without selections, and the directives themselves are
erased. Executing what is left comes to the same (`Execution.returns_trimmed`).

The two go different ways about it. An excluded spread does not visit its name, and a deleted one
cannot; but a spread of an excluded fragment visits the name and expands nothing, where in the
rewritten document a fragment without selections is expanded. So the two passes over a selection set
visit the same names and collect the same nodes, and differ in what they expand
(`Scope.Collects.trim`).
-/

set_option autoImplicit false

namespace GraphQL

/-! ## 1. Directives -/

/-- Whether a directive is one that decides what is included. -/
def DirectiveUse.isConditional (directive : DirectiveUse) : Bool :=
  directive.name = "skip" || directive.name = "include"

/-- The other directives. -/
def DirectiveUse.unconditional (directives : List DirectiveUse) : List DirectiveUse :=
  directives.filter fun directive => !directive.isConditional

namespace Scope

variable {scope : Scope} {objectType : Name}

/-- Directives exclude what they stand on: the condition of the first `skip` or `include` among them
comes out, as true for `skip` and as false for `include`. -/
def excludes (scope : Scope) (directives : List DirectiveUse) : Bool :=
  match directives.find? DirectiveUse.isConditional with
  | some directive => scope.condition? directive = some (directive.name = "skip" : Bool)
  | none => false

theorem excludes_eq_not_includes (directives : List DirectiveUse) :
    scope.excludes directives = !scope.includes directives := by
  induction directives with
  | nil => rfl
  | cons directive rest ih =>
    have hcons : scope.excludes (directive :: rest) = if directive.isConditional
        then decide (scope.condition? directive = some (directive.name = "skip" : Bool))
        else scope.excludes rest := by
      rw [excludes, List.find?_cons]
      cases directive.isConditional <;> rfl
    rw [hcons, includes]
    by_cases hs : directive.name = "skip"
    · have hc : directive.isConditional = true := by simp [DirectiveUse.isConditional, hs]
      rw [if_pos hc, if_pos hs]
      rcases scope.condition? directive with _ | _ | _ <;> simp [hs]
    · by_cases hi : directive.name = "include"
      · have hc : directive.isConditional = true := by simp [DirectiveUse.isConditional, hi]
        rw [if_pos hc, if_neg hs, if_pos hi]
        rcases scope.condition? directive with _ | _ | _ <;> simp [hs]
      · have hc : ¬ directive.isConditional = true := by simp [DirectiveUse.isConditional, hs, hi]
        rw [if_neg hc, if_neg hs, if_neg hi, ih]

/-- Without conditions, everything is included. -/
theorem includes_unconditional (directives : List DirectiveUse) :
    scope.includes (DirectiveUse.unconditional directives) = true := by
  have hnone : (DirectiveUse.unconditional directives).find? DirectiveUse.isConditional = none := by
    rw [List.find?_eq_none]
    intro directive hm
    simpa using (List.mem_filter.mp hm).2
  have hexcludes : scope.excludes (DirectiveUse.unconditional directives) = false := by
    rw [excludes, hnone]
  rw [excludes_eq_not_includes] at hexcludes
  simpa using hexcludes

theorem counts_unconditional (condition : Option Name) (directives : List DirectiveUse) :
    scope.counts objectType condition (DirectiveUse.unconditional directives) =
      condition.all (scope.applies objectType) := by
  rw [counts, includes_unconditional, Bool.true_and]

/-! ## 2. The rewritten document -/

mutual

/-- What is left of a selection: nothing, if its directives exclude it. -/
def trimOne (scope : Scope) : Selection → List Selection
  | .field head selections =>
    if scope.excludes head.directives then []
    else
      let head := { head with directives := DirectiveUse.unconditional head.directives }
      [.field head (trim scope selections)]
  | .inline condition directives selections =>
    if scope.excludes directives then []
    else [.inline condition (DirectiveUse.unconditional directives) (trim scope selections)]
  | .spread name directives =>
    if scope.excludes directives then []
    else [.spread name (DirectiveUse.unconditional directives)]

/-- What is left of several selections. -/
def trim (scope : Scope) : List Selection → List Selection
  | [] => []
  | selection :: rest => trimOne scope selection ++ trim scope rest

end

/-- What is left of a fragment: its name and its type, if its directives exclude it. -/
def trimFragment (scope : Scope) (fragment : Fragment) : Fragment :=
  { fragment with
    directives := DirectiveUse.unconditional fragment.directives
    selections := if scope.excludes fragment.directives then [] else scope.trim fragment.selections }

/-- What is left of an operation. -/
def trimOperation (scope : Scope) (operation : Operation) : Operation :=
  { operation with
    variableDefinitions := operation.variableDefinitions.map fun definition =>
      { definition with directives := DirectiveUse.unconditional definition.directives }
    directives := DirectiveUse.unconditional operation.directives
    selections := scope.trim operation.selections }

/-- What is left of a document. -/
def trimDocument (scope : Scope) (document : Document) : Document where
  operations := document.operations.map scope.trimOperation
  fragments := document.fragments.map scope.trimFragment

/-- What is left of a field node that is included. -/
def trimNode (scope : Scope) (node : FieldNode) : FieldNode :=
  { node with
    directives := DirectiveUse.unconditional node.directives
    selections := scope.trim node.selections }

/-- What the rewritten document is read by. -/
def trimmed (scope : Scope) : Scope :=
  { scope with fragments := scope.fragments.map scope.trimFragment }

theorem trim_append (first second : List Selection) :
    scope.trim (first ++ second) = scope.trim first ++ scope.trim second := by
  induction first with
  | nil => rfl
  | cons selection rest ih => rw [List.cons_append, trim, trim, ih, List.append_assoc]

/-- What is left below a group is what is left of what was below it. -/
theorem selections_map_trimNode (group : FieldGroup) :
    (group.map scope.trimNode).selections = scope.trim group.selections := by
  have hnodes : ∀ nodes : List FieldNode, (nodes.map scope.trimNode).flatMap (·.selections) =
      scope.trim (nodes.flatMap (·.selections)) := by
    intro nodes
    induction nodes with
    | nil => rfl
    | cons node rest ih =>
      rw [List.map_cons, List.flatMap_cons, List.flatMap_cons, trim_append, ih]
      rfl
  exact hnodes group.nodes

/-! ## 3. Collection -/

/-- What is left of what has been collected: all names that have been visited. -/
def Collected.trim (scope : Scope) (found : Collected) : Collected where
  nodes := found.nodes.map scope.trimNode
  visited := found.visited

theorem applies_trimmed : scope.trimmed.applies objectType = scope.applies objectType :=
  funext (@applies_congr scope scope.trimmed rfl objectType)

theorem excludes_eq_false {directives : List DirectiveUse}
    (hi : scope.includes directives = true) : ¬ scope.excludes directives = true := by
  simp [excludes_eq_not_includes, hi]

theorem excludes_eq_true {directives : List DirectiveUse}
    (hi : scope.includes directives = false) : scope.excludes directives = true := by
  simp [excludes_eq_not_includes, hi]

theorem counted?_trimmed_eq_some_iff {name : Name} {left : Fragment} :
    scope.trimmed.counted? objectType name = some left ↔
      ∃ fragment, Fragment.find? scope.fragments name = some fragment ∧
        scope.applies objectType fragment.condition = true ∧
        scope.trimFragment fragment = left := by
  have hcounts : ∀ fragment, scope.trimmed.counts objectType
      (some (scope.trimFragment fragment).condition) (scope.trimFragment fragment).directives =
        scope.applies objectType fragment.condition := by
    intro fragment
    exact (counts_unconditional _ _).trans (congrFun applies_trimmed _)
  have hname : ∀ fragment, (scope.trimFragment fragment).name = fragment.name := fun _ => rfl
  have hfind : Fragment.find? scope.trimmed.fragments name =
      (Fragment.find? scope.fragments name).map scope.trimFragment :=
    Fragment.find?_map hname _ _
  rw [counted?_eq_some_iff, hfind, Option.map_eq_some_iff]
  constructor
  · rintro ⟨⟨fragment, hf, rfl⟩, hc⟩
    exact ⟨fragment, hf, (hcounts fragment).symm.trans hc, rfl⟩
  · rintro ⟨fragment, hf, ha, rfl⟩
    exact ⟨⟨fragment, hf, rfl⟩, (hcounts fragment).trans ha⟩

/-- A fragment that counts only after the rewriting was excluded, and nothing is left in it. -/
theorem selections_of_counted?_trimmed {name : Name} {left : Fragment}
    (hc : scope.counted? objectType name = none)
    (h : scope.trimmed.counted? objectType name = some left) : left.selections = [] := by
  obtain ⟨fragment, hf, ha, rfl⟩ := counted?_trimmed_eq_some_iff.mp h
  have hcounts := counted?_eq_none_iff.mp hc fragment hf
  rw [counts, Option.all_some, ha, Bool.and_true] at hcounts
  exact if_pos (excludes_eq_true hcounts)

/-- A pass over selections is a pass over what is left of them, which collects what is left of what
the first collects, and visits the same names. -/
theorem Collects.trim {selections : List Selection} {found after : Collected}
    {expanded : List Name} (h : scope.Collects objectType selections found expanded after) :
    ∃ expanded', scope.trimmed.Collects objectType (scope.trim selections)
      (Collected.trim scope found) expanded' (Collected.trim scope after) := by
  induction h with
  | nil => exact ⟨[], .nil _⟩
  | @field head below rest found after expanded hi hr ih =>
    obtain ⟨expanded', ih⟩ := ih
    refine ⟨expanded', ?_⟩
    rw [Scope.trim, trimOne, if_neg (excludes_eq_false hi)]
    refine .field (includes_unconditional _) ?_
    rw [Collected.trim, List.map_append] at ih
    exact ih
  | fieldExcluded hi _ ih =>
    rw [Scope.trim, trimOne, if_pos (excludes_eq_true hi)]
    exact ih
  | @inline condition directives _ _ _ _ _ _ _ hc _ _ ihi ihr =>
    obtain ⟨expanded, ihi⟩ := ihi
    obtain ⟨expanded', ihr⟩ := ihr
    obtain ⟨hi, ha⟩ := Bool.and_eq_true_iff.mp hc
    rw [Scope.trim, trimOne, if_neg (excludes_eq_false hi)]
    refine ⟨expanded ++ expanded', .inline ?_ ihi ihr⟩
    rw [counts_unconditional, applies_trimmed, ha]
  | @inlineExcluded condition directives _ _ _ _ _ hc _ ih =>
    obtain ⟨expanded', ih⟩ := ih
    refine ⟨expanded', ?_⟩
    rw [Scope.trim, trimOne]
    split
    · exact ih
    · next hx =>
      -- The directives include it, so its type does not apply.
      refine .inlineExcluded ?_ ih
      rw [excludes_eq_not_includes, Bool.not_eq_true, Bool.not_eq_false'] at hx
      rw [counts, hx, Bool.true_and] at hc
      rw [counts_unconditional, applies_trimmed, hc]
  | passed hp _ ih =>
    obtain ⟨expanded', ih⟩ := ih
    refine ⟨expanded', ?_⟩
    rw [Scope.trim, trimOne]
    split
    · exact ih
    · next hx =>
      rw [excludes_eq_not_includes, Bool.not_eq_true, Bool.not_eq_false'] at hx
      exact .passed (Or.inl (hp.resolve_right (by simp [hx]))) ih
  | @visited name directives rest found after expanded hn hi hc hr ih =>
    obtain ⟨expanded', ih⟩ := ih
    rw [Scope.trim, trimOne, if_neg (excludes_eq_false hi)]
    have hi' := @includes_unconditional scope.trimmed directives
    cases hcounted : scope.trimmed.counted? objectType name with
    | none => exact ⟨expanded', .visited hn hi' hcounted ih⟩
    | some fragment' =>
      have hbody := selections_of_counted?_trimmed hc hcounted
      refine ⟨name :: ([] ++ expanded'), .expanded hn hi' hcounted ?_ ih⟩
      rw [hbody]
      exact .nil _
  | @expanded name directives fragment _ _ _ _ _ _ hn hi hc _ _ ihf ihr =>
    obtain ⟨expanded, ihf⟩ := ihf
    obtain ⟨expanded', ihr⟩ := ihr
    obtain ⟨hf, hcounts⟩ := counted?_eq_some_iff.mp hc
    obtain ⟨hinc, happ⟩ := Bool.and_eq_true_iff.mp hcounts
    rw [Scope.trim, trimOne, if_neg (excludes_eq_false hi)]
    have hcounted := counted?_trimmed_eq_some_iff.mpr ⟨fragment, hf, happ, rfl⟩
    have hbody : (scope.trimFragment fragment).selections = scope.trim fragment.selections :=
      if_neg (excludes_eq_false hinc)
    rw [← hbody] at ihf
    exact ⟨_, .expanded hn (includes_unconditional _) hcounted ihf ihr⟩

theorem collectGroups_trimmed (objectType : Name) (selections : List Selection) :
    scope.trimmed.collectGroups objectType (scope.trim selections) =
      (scope.collectGroups objectType selections).map (FieldGroup.map scope.trimNode) := by
  obtain ⟨_, after, h, heq⟩ := @exists_collects scope objectType selections
  obtain ⟨_, htrim⟩ := h.trim
  have hkey : ∀ node, (scope.trimNode node).key = node.key := fun _ => rfl
  rw [collectGroups, collectGroups, heq, htrim.collect_eq]
  exact FieldGroup.ofNodes_map hkey after.nodes

end Scope

/-! ## 4. Execution -/

/-- Selections and what is left of them are executed alike, for an application that does not look at
the text. -/
theorem Environment.SameButText.alike_trimmed {σ : Type} {env env' : Environment σ}
    (h : env.SameButText env') (hf : env'.toScope = env.toScope.trimmed)
    (ho : env.application.IgnoresOperation) (hn : env.application.IgnoresNodes) :
    env.Alike env' (fun selections selections' => selections' = env.toScope.trim selections) where
  schema := h.schema
  application := h.application
  groups type selections selections' hs := by
    subst hs
    rw [hf, Scope.collectGroups_trimmed, List.forall₂_map_right_iff, List.forall₂_same]
    intro group _
    have hfirst : (group.map env.trimNode).first.arguments = group.first.arguments := rfl
    exact ⟨rfl, rfl, rfl, fun found source => h.resolve ho hn hfirst type source found,
      Scope.selections_map_trimNode group⟩

namespace Execution

/-- What the selections of a document are read by, if the execution begins. -/
def scope (execution : Execution) (schema : Schema) (document : Document) : Scope where
  schema := schema
  fragments := document.fragments
  variableValues := match execution.prepare schema document with
    | .ok prepared => prepared.variableValues
    | .error _ => []

/-- The document without what the values of the variables exclude, and without the directives that
say so. -/
def trim (execution : Execution) (schema : Schema) (document : Document) : Document :=
  (execution.scope schema document).trimDocument document

variable {execution : Execution} {schema : Schema} {document : Document} {scope : Scope}

/-- What is left of the declarations of variables declares the same variables. -/
theorem coerceVariables_trimOperation (operation : Operation) (supplied : Json.Members) :
    schema.coerceVariables (scope.trimOperation operation).variableDefinitions supplied =
      schema.coerceVariables operation.variableDefinitions supplied := by
  refine Schema.coerceVariables_congr_of_forall₂ (List.forall₂_map_right_iff.mpr ?_)
  exact List.forall₂_same.mpr fun _ _ => ⟨rfl, rfl⟩

theorem operation?_trimDocument (name : Option String) :
    (scope.trimDocument document).operation? name =
      (document.operation? name).map scope.trimOperation := by
  unfold Document.operation? Scope.trimDocument
  cases name with
  | some name =>
    dsimp only
    rw [List.find?_map]
    have hname : ((fun operation : Operation => decide (operation.name = some name)) ∘
        scope.trimOperation) = fun operation => decide (operation.name = some name) := rfl
    rw [hname]
    cases document.operations.find? fun operation => operation.name = some name <;> rfl
  | none =>
    dsimp only
    rcases document.operations with _ | ⟨operation, _ | ⟨_, _⟩⟩ <;> rfl

theorem prepare_trimDocument :
    execution.prepare schema (scope.trimDocument document) =
      (execution.prepare schema document).map fun prepared =>
        { prepared with operation := scope.trimOperation prepared.operation } := by
  rw [prepare, prepare, operation?_trimDocument]
  cases document.operation? execution.operationName with
  | error error => rfl
  | ok operation =>
    have hroot : schema.rootOf (scope.trimOperation operation) = schema.rootOf operation := rfl
    simp only [bind, Except.bind, Except.map, hroot, coerceVariables_trimOperation]
    cases schema.rootOf operation with
    | error error => rfl
    | ok rootType =>
      dsimp only
      cases schema.coerceVariables operation.variableDefinitions execution.variableValues <;> rfl

variable {σ : Type} {application : Application σ}

/-- At every depth, what is left of a document is executed as the document is. -/
theorem run?_trim (ho : application.IgnoresOperation) (hn : application.IgnoresNodes)
    (execution : Execution) (depth : Nat) (schema : Schema) (document : Document) (s : σ) :
    execution.run? depth schema application (execution.trim schema document) s =
      execution.run? depth schema application document s := by
  have hprepare : execution.prepare schema (execution.trim schema document) = _ :=
    prepare_trimDocument
  cases hp : execution.prepare schema document with
  | error error =>
    rw [hp] at hprepare
    simp only [run?, hp, hprepare, Except.map]
  | ok prepared =>
    have hscope : execution.scope schema document = prepared.scope schema document := by
      simp only [scope, hp, Prepared.scope]
    rw [hp] at hprepare
    rw [trim, hscope] at hprepare ⊢
    have hbut : (execution.environment schema application document prepared).SameButText
        (execution.environment schema application
          ((prepared.scope schema document).trimDocument document)
          { prepared with
            operation := (prepared.scope schema document).trimOperation prepared.operation }) :=
      ⟨rfl, rfl, rfl, rfl, rfl⟩
    have hleft : ((prepared.scope schema document).trimOperation prepared.operation).selections =
        (prepared.scope schema document).trim prepared.operation.selections := rfl
    have hrun := (hbut.alike_trimmed rfl ho hn).executeSelections depth hleft prepared.rootType
      execution.root
    simp only [run?, hp, hprepare, Except.map]
    exact congrArg (fun run => Option.map _ (run s)) hrun

/-- Skipping is deleting: for an application that does not look at the text, executing what is left
of a document comes to the same response, with the same data and the same errors in the same order,
and to the same state of the application, as executing the document; and it ends if that ends. -/
theorem returns_trimmed (ho : application.IgnoresOperation) (hn : application.IgnoresNodes)
    (execution : Execution) (schema : Schema) (document : Document) (s : σ) (response : Response)
    (s' : σ) :
    execution.Returns schema application (execution.trim schema document) s response s' ↔
      execution.Returns schema application document s response s' := by
  simp only [Returns, run?_trim ho hn]

end Execution

/-! ## 5. A document to look at -/

namespace Sample

/-- A directive whose condition is the variable `flag`. -/
def onFlag (name : Name) : DirectiveUse where
  name := name
  arguments := [{ name := "if", value := .variable "flag" }]

/-- A field that is skipped, a fragment that is spread where its spread is included, and one that is
skipped itself. -/
def conditionalDocument : Document where
  operations := [{ operation with
    variableDefinitions := [{ location := .start, name := "flag", type := .named "Boolean" false
                              default := none, directives := [] }]
    selections :=
      [.field { location := .start, aliased := none, name := "failing", arguments := []
                directives := [onFlag "skip", onFlag "include"] } [],
        .spread "Name" [onFlag "include"], .spread "Hidden" [],
        .inline none [onFlag "skip"] [.spread "Hidden" []]] }]
  fragments := [nameFragment,
    { loop with name := "Hidden", directives := [onFlag "skip"] }]

def conditionalExecution : Execution where
  variableValues := [("flag", .boolean true)]

def trimmedDocument : Document where
  operations := [{ operation with
    variableDefinitions := [{ location := .start, name := "flag", type := .named "Boolean" false
                              default := none, directives := [] }]
    selections := [.spread "Name" [], .spread "Hidden" []] }]
  fragments := [nameFragment, { loop with name := "Hidden", selections := [] }]

theorem trim_conditionalDocument :
    conditionalExecution.trim schema conditionalDocument = trimmedDocument := rfl

theorem returns_conditionalDocument : conditionalExecution.Returns schema application
    conditionalDocument () { data := .object [("name", .string "sample")] } () :=
  ⟨1, rfl⟩

end Sample

theorem Execution.returns_trimmed_sample :
    Sample.application.IgnoresOperation ∧ Sample.application.IgnoresNodes ∧
    Sample.conditionalExecution.Returns Sample.schema Sample.application Sample.trimmedDocument ()
      { data := .object [("name", .string "sample")] } () := by
  refine ⟨Sample.ignoresOperation, Sample.ignoresNodes, ?_⟩
  rw [← Sample.trim_conditionalDocument]
  exact (returns_trimmed Sample.ignoresOperation Sample.ignoresNodes _ _ _ _ _ _).mpr
    Sample.returns_conditionalDocument

end GraphQL
