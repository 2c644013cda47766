import GraphQL.Proofs.Execution.Rewriting
import GraphQL.Proofs.Input.Substitution

/-!
# `GraphQL/Proofs/Execution/Substitution.lean` — a default written out

A variable with a default that a request leaves out is an abbreviation. Its default can be written
wherever the operation, and the fragments that it spreads, use the variable, and execution comes to
the same response (`Execution.returns_substituted`).

What this asks for is that the variable stands at places of its own type. Arguments have their types
from the field that is found on an object, so for them the places are those along the visits of an
execution; directives have theirs from the schema, so for them they are those of all directives that
the selections carry.
-/

set_option autoImplicit false

namespace GraphQL

/-! ## 1. Documents with a constant in place of a variable -/

def DirectiveUse.substitute (name : Name) (directive : DirectiveUse) (constant : Literal) :
    DirectiveUse :=
  { directive with arguments := directive.arguments.map (·.substitute name constant) }

def FieldHead.substitute (name : Name) (head : FieldHead) (constant : Literal) : FieldHead :=
  { head with
    arguments := head.arguments.map (·.substitute name constant)
    directives := head.directives.map (·.substitute name constant) }

mutual

/-- A selection with a constant in place of a variable. -/
def Selection.substitute (name : Name) (selection : Selection) (constant : Literal) : Selection :=
  match selection with
  | .field head selections =>
    .field (head.substitute name constant) (Selection.substituteAll name selections constant)
  | .inline condition directives selections =>
    .inline condition (directives.map (·.substitute name constant))
      (Selection.substituteAll name selections constant)
  | .spread fragment directives => .spread fragment (directives.map (·.substitute name constant))

/-- Selections with a constant in place of a variable. -/
def Selection.substituteAll (name : Name) (selections : List Selection) (constant : Literal) :
    List Selection :=
  match selections with
  | [] => []
  | selection :: rest =>
    selection.substitute name constant :: Selection.substituteAll name rest constant

end

/-- A fragment with a constant in place of a variable. -/
def Fragment.substitute (name : Name) (fragment : Fragment) (constant : Literal) : Fragment :=
  { fragment with
    directives := fragment.directives.map (·.substitute name constant)
    selections := Selection.substituteAll name fragment.selections constant }

/-- An operation with a constant in place of a variable. It still declares the variable. -/
def Operation.substitute (name : Name) (operation : Operation) (constant : Literal) : Operation :=
  { operation with
    directives := operation.directives.map (·.substitute name constant)
    selections := Selection.substituteAll name operation.selections constant }

/-! ## 2. The directives that selections carry -/

/-- Directives stand on selections, below them, or on and in the fragments that they spread. -/
inductive Carries (fragments : List Fragment) : List Selection → List DirectiveUse → Prop where
  | field {selections below : List Selection} {head : FieldHead}
    (hm : .field head below ∈ selections) : Carries fragments selections head.directives
  | under {selections below : List Selection} {head : FieldHead} {directives : List DirectiveUse}
    (hm : .field head below ∈ selections) (h : Carries fragments below directives) :
    Carries fragments selections directives
  | inline {selections inner : List Selection} {condition : Option Name}
    {directives : List DirectiveUse} (hm : .inline condition directives inner ∈ selections) :
    Carries fragments selections directives
  | inside {selections inner : List Selection} {condition : Option Name}
    {directives directives' : List DirectiveUse}
    (hm : .inline condition directives inner ∈ selections)
    (h : Carries fragments inner directives') : Carries fragments selections directives'
  | spread {selections : List Selection} {name : Name} {directives : List DirectiveUse}
    (hm : .spread name directives ∈ selections) : Carries fragments selections directives
  | fragment {selections : List Selection} {name : Name} {fragment : Fragment}
    (hs : Spreads fragments selections name)
    (hf : Fragment.find? fragments name = some fragment) :
    Carries fragments selections fragment.directives
  | through {selections : List Selection} {name : Name} {fragment : Fragment}
    {directives : List DirectiveUse} (hs : Spreads fragments selections name)
    (hf : Fragment.find? fragments name = some fragment)
    (h : Carries fragments fragment.selections directives) :
    Carries fragments selections directives

theorem Carries.mono {fragments : List Fragment} {selections more : List Selection}
    {directives : List DirectiveUse} (h : Carries fragments selections directives)
    (hs : selections ⊆ more) : Carries fragments more directives := by
  cases h with
  | field hm => exact .field (hs hm)
  | under hm h => exact .under (hs hm) h
  | inline hm => exact .inline (hs hm)
  | inside hm h => exact .inside (hs hm) h
  | spread hm => exact .spread (hs hm)
  | fragment hspreads hf => exact .fragment (hspreads.mono hs) hf
  | through hspreads hf h => exact .through (hspreads.mono hs) hf h

/-! ## 3. Substitution as a rewriting -/

/-- Arguments and directives with a constant in place of a variable, where the directives are
decided as before. -/
def Rewriting.substitution (scope : Scope) (name : Name) (constant : Literal) : Rewriting where
  arguments head arguments := arguments = head.arguments.map (·.substitute name constant)
  directives directives directives' :=
    directives' = directives.map (·.substitute name constant) ∧
      scope.includes directives' = scope.includes directives

section Turns

variable {scope : Scope} {fragments : List Fragment} {name : Name} {constant : Literal}

theorem turns_substituteAll : ∀ selections : List Selection,
    (∀ directives, Carries fragments selections directives →
      scope.includes (directives.map (·.substitute name constant)) = scope.includes directives) →
    (Rewriting.substitution scope name constant).Turns selections
      (Selection.substituteAll name selections constant)
  | [], _ => .nil
  | .field head selections :: rest, h =>
    .field rfl ⟨rfl, h _ (.field List.mem_cons_self)⟩
      (turns_substituteAll selections fun _ hc => h _ (.under List.mem_cons_self hc))
      (turns_substituteAll rest fun _ hc => h _ (hc.mono (List.subset_cons_self _ _)))
  | .inline condition directives selections :: rest, h =>
    .inline ⟨rfl, h _ (.inline List.mem_cons_self)⟩
      (turns_substituteAll selections fun _ hc => h _ (.inside List.mem_cons_self hc))
      (turns_substituteAll rest fun _ hc => h _ (hc.mono (List.subset_cons_self _ _)))
  | .spread fragment directives :: rest, h =>
    .spread ⟨rfl, h _ (.spread List.mem_cons_self)⟩
      (turns_substituteAll rest fun _ hc => h _ (hc.mono (List.subset_cons_self _ _)))

theorem turnsAmong_substitute {selections : List Selection}
    (h : ∀ directives, Carries fragments selections directives →
      scope.includes (directives.map (·.substitute name constant)) = scope.includes directives) :
    (Rewriting.substitution scope name constant).TurnsAmong selections fragments
      (fragments.map (·.substitute name constant)) := by
  intro fragmentName hs
  have hname : ∀ fragment : Fragment, (fragment.substitute name constant).name = fragment.name :=
    fun _ => rfl
  rw [Fragment.find?_map hname]
  cases hf : Fragment.find? fragments fragmentName with
  | none => exact .none
  | some fragment =>
    refine .some ⟨rfl, ⟨rfl, h _ (.fragment hs hf)⟩, ?_⟩
    exact turns_substituteAll fragment.selections fun _ hc => h _ (.through hs hf hc)

end Turns

/-! ## 4. Execution -/

/-- The conditions of directives have a variable at replaceable places only. -/
def Schema.DirectivesReplaceable (schema : Schema) (name : Name) (declaredType : TypeRef)
    (directives : List DirectiveUse) : Prop :=
  ∀ directive ∈ directives, directive.name = "skip" ∨ directive.name = "include" →
    ∀ definition, schema.directives.get? directive.name = some definition →
      schema.ArgumentsReplaceable name declaredType definition.arguments directive.arguments

namespace Scope

variable {scope : Scope} {name : Name} {declaredType : TypeRef} {constant : Literal}

/-- Directives are decided as before. -/
theorem includes_substitute (hc : constant.Constant)
    (hv : scope.variableValues.get? name =
      some (scope.schema.coerceLiteral [] constant declaredType)) {directives : List DirectiveUse}
    (h : scope.schema.DirectivesReplaceable name declaredType directives) :
    scope.includes (directives.map (·.substitute name constant)) = scope.includes directives := by
  refine includes_of_forall₂ (List.forall₂_map_right_iff.mpr (List.forall₂_same.mpr ?_))
  exact fun directive hm => ⟨rfl, fun hd definition hg =>
    Schema.coerceArguments_substitute hc hv (h directive hm hd definition hg)⟩

end Scope

namespace Execution

variable {execution : Execution} {schema : Schema} {document document' : Document}
variable {operation : Operation} {before after : List VariableDefinition}
variable {definition : VariableDefinition} {default : Literal}

/-- A variable without a value has that of its default. -/
theorem get?_of_default (hs : document.Selects execution.operationName operation)
    (hd : operation.variableDefinitions = before ++ definition :: after)
    (ha : ∀ other ∈ after, other.name ≠ definition.name)
    (hl : (schema.get? definition.type.innermost).isSome = true)
    (hr : definition.type.required = false) (hdefault : definition.default = some default)
    (hg : (execution.variableValues.get? definition.name).getD .null = .null) {prepared : Prepared}
    (hp : execution.prepare schema document = .ok prepared) :
    prepared.variableValues.get? definition.name =
      some (schema.coerceLiteral [] default definition.type) := by
  obtain ⟨ho, -, hv⟩ := prepare_eq_ok hp
  have hsame : prepared.operation = operation :=
    Except.ok.inj (ho.symm.trans (Document.operation?_eq_ok_iff.mpr hs))
  rw [hsame, hd] at hv
  obtain ⟨value, hvalue, hc⟩ := Schema.get?_of_coerceVariablesInto_of_last ha hv
  rw [Schema.coerceVariable_of_default hl hdefault hr hg, Except.ok.injEq] at hc
  rw [hvalue, hc]

/-- A default written out. Let an operation declare a variable of a nullable type with a constant
default, and let a request bring no value for it. If the variable stands at places of its own type
only, in the arguments of the fields that an execution comes to and in the conditions that the
selections carry, then the default can be written in its place: every such field has the same
arguments, every directive comes to the same decision and, for an application that does not look at
the text, execution comes to the same response and the same state, or does not end, as before. -/
theorem returns_substituted (hs : document.Selects execution.operationName operation)
    (hd : operation.variableDefinitions = before ++ definition :: after)
    (ha : ∀ other ∈ after, other.name ≠ definition.name)
    (hl : (schema.get? definition.type.innermost).isSome = true)
    (hr : definition.type.required = false) (hdefault : definition.default = some default)
    (hc : default.Constant)
    (hg : (execution.variableValues.get? definition.name).getD .null = .null) {σ : Type}
    {application : Application σ}
    (hdirectives : ∀ directives, Carries document.fragments operation.selections directives →
      schema.DirectivesReplaceable definition.name definition.type directives)
    (harguments : ∀ prepared, execution.prepare schema document = .ok prepared →
      (execution.environment schema application document prepared).AtFields
        (execution.rootVisit prepared) fun found group =>
          schema.ArgumentsReplaceable definition.name definition.type found.definition.arguments
            group.first.arguments)
    (hs' : document'.Selects execution.operationName
      (operation.substitute definition.name default))
    (hf' : document'.fragments =
      document.fragments.map (·.substitute definition.name default)) :
    (∀ prepared, execution.prepare schema document = .ok prepared →
      ((execution.environment schema application document prepared).AtFields
        (execution.rootVisit prepared) fun found group =>
          schema.coerceArguments prepared.variableValues found.definition.arguments
              (group.first.arguments.map (·.substitute definition.name default)) =
            schema.coerceArguments prepared.variableValues found.definition.arguments
              group.first.arguments) ∧
      ∀ directives, Carries document.fragments operation.selections directives →
        (prepared.scope schema document).includes
            (directives.map (·.substitute definition.name default)) =
          (prepared.scope schema document).includes directives) ∧
    (application.IgnoresOperation → application.IgnoresNodes → ∀ s response s',
      execution.Returns schema application document' s response s' ↔
        execution.Returns schema application document s response s') := by
  -- The variable is read as its default is read once, at the type that is declared for it.
  have hvalue : ∀ prepared, execution.prepare schema document = .ok prepared → _ :=
    fun _ hp => get?_of_default hs hd ha hl hr hdefault hg hp
  have hincludes : ∀ prepared, execution.prepare schema document = .ok prepared →
      ∀ directives, Carries document.fragments operation.selections directives →
        (prepared.scope schema document).includes
            (directives.map (·.substitute definition.name default)) =
          (prepared.scope schema document).includes directives := by
    intro prepared hp directives hcarries
    have hread : (prepared.scope schema document).variableValues.get? definition.name =
        some ((prepared.scope schema document).schema.coerceLiteral [] default definition.type) :=
      hvalue prepared hp
    exact Scope.includes_substitute hc hread (hdirectives directives hcarries)
  have hsame := fun prepared hp => (harguments prepared hp).imp fun found group h =>
    Schema.coerceArguments_substitute hc (hvalue prepared hp) h
  refine ⟨fun prepared hp => ⟨hsame prepared hp, hincludes prepared hp⟩,
    fun ho hn s response s' => ?_⟩
  have hrun := run?_of_turns ho hn hs hs' rfl rfl fun prepared hp =>
    ⟨.substitution (prepared.scope schema document) definition.name default,
      turns_substituteAll operation.selections (hincludes prepared hp),
      hf' ▸ turnsAmong_substitute (hincludes prepared hp),
      fun _ _ h => h.2,
      (hsame prepared hp).imp fun found group h arguments harguments => harguments ▸ h⟩
  exact exists_congr fun depth => by rw [← hrun depth s]

end Execution

/-! ## 5. A document to look at -/

namespace FlagSample

def flagsInput : InputValueDefinition where
  name := "flags"
  type := .list (.named "Boolean" false) false

def echoField : FieldDefinition where
  name := "echo"
  type := .list (.named "Boolean" false) false
  arguments := [flagsInput]

def description : SchemaDescription where
  query := some "Query"
  types := [.object { name := "Query", fields := .ofList [echoField] }]

theorem isSome_build : description.build.toOption.isSome = true := by decide

def schema : Schema :=
  description.build.toOption.get isSome_build

theorem build_eq_ok : description.build = .ok schema :=
  Except.eq_ok_get isSome_build

/-- A field resolves to its argument. -/
def application : Application Unit where
  resolver _ _ := some fun info => pure (.ok ((info.arguments.get? "flags").getD .null))

def flag : VariableDefinition where
  location := .start
  name := "flag"
  type := .named "Boolean" false
  default := some (.boolean true)
  directives := []

def condition : DirectiveUse where
  name := "include"
  arguments := [{ name := "if", value := .variable "flag" }]

def flagsLiteral : Literal :=
  .list [.variable "flag", .boolean false]

/-- A fragment in which the variable is an item of a list, and a condition. -/
def fragment : Fragment where
  name := "Echo"
  condition := "Query"
  directives := []
  selections :=
    [.field { location := .start, aliased := none, name := "echo"
              arguments := [{ name := "flags", value := flagsLiteral }]
              directives := [condition] } []]

def operation : Operation where
  location := .start
  kind := .query
  name := none
  variableDefinitions := [flag]
  directives := []
  selections := [.spread "Echo" []]

def document : Document where
  operations := [operation]
  fragments := [fragment]

def substituted : Document where
  operations := [operation.substitute "flag" (.boolean true)]
  fragments := [fragment.substitute "flag" (.boolean true)]

def response : Response where
  data := .object [("echo", .array [.boolean true, .boolean false])]

theorem get?_boolean : schema.types.get? "Boolean" = some (.scalar Scalar.boolean) := by
  have hm : Scalar.boolean ∈ Scalar.builtIn := by simp [Scalar.builtIn]
  have h := (SchemaDescription.builds build_eq_ok).get?_builtIn hm (by decide)
  exact h

/-- Below a Boolean there are no places. -/
theorem everywhere_boolean {P : Schema.Place → Prop} {literal : Literal} {required : Bool}
    (h : P ⟨literal, .named "Boolean" required⟩) :
    schema.Everywhere P literal (.named "Boolean" required) :=
  .of_steps h fun _ hstep => by
    cases hstep with
    | field ht _ => cases get?_boolean.symm.trans ht

/-- At a Boolean the variable may stand as it is. -/
theorem replaceable_flag (required : Bool) :
    schema.Replaceable "flag" flag.type ⟨.variable "flag", .named "Boolean" required⟩ where
  type _ := rfl
  custom _ _ _ _ _ _ _ := rfl

theorem everywhere_flagsLiteral :
    schema.Everywhere (schema.Replaceable "flag" flag.type) flagsLiteral flagsInput.type := by
  refine .of_steps ⟨fun h => (by cases h), fun _ _ h => (by cases h)⟩ fun next hstep => ?_
  cases hstep with
  | item hm =>
    rcases List.mem_cons.mp hm with rfl | hm
    · exact everywhere_boolean (replaceable_flag false)
    · cases List.mem_singleton.mp hm
      have hmentions : ¬ (Literal.boolean false).Mentions "flag" := fun h => by cases h
      exact everywhere_boolean ⟨fun h => (by cases h), fun _ _ _ _ _ _ h => absurd h hmentions⟩
  | single hs => cases hs

theorem carries_cases {selections : List Selection} {directives : List DirectiveUse}
    (h : Carries document.fragments selections directives)
    (hs : selections ⊆ operation.selections ++ fragment.selections) :
    directives = [] ∨ directives = [condition] := by
  have hfragment : ∀ {name found}, Fragment.find? document.fragments name = some found →
      found = fragment := fun hf => List.mem_singleton.mp (Fragment.mem_of_find? hf)
  induction h with
  | field hm =>
    rcases List.mem_cons.mp (hs hm) with heq | hm
    · cases heq
    · cases List.mem_singleton.mp hm
      exact Or.inr rfl
  | under hm _ ih =>
    rcases List.mem_cons.mp (hs hm) with heq | hm
    · cases heq
    · cases List.mem_singleton.mp hm
      exact ih (List.nil_subset _)
  | inline hm => exact absurd (hs hm) (by simp [operation, fragment])
  | inside hm _ _ => exact absurd (hs hm) (by simp [operation, fragment])
  | spread hm =>
    rcases List.mem_cons.mp (hs hm) with heq | hm
    · cases heq
      exact Or.inl rfl
    · cases List.mem_singleton.mp hm
  | fragment _ hf =>
    rw [hfragment hf]
    exact Or.inl rfl
  | through _ hf _ ih =>
    refine ih ?_
    rw [hfragment hf]
    exact List.subset_append_right _ _

theorem directivesReplaceable {directives : List DirectiveUse}
    (h : Carries document.fragments operation.selections directives) :
    schema.DirectivesReplaceable "flag" flag.type directives := by
  rcases carries_cases h (List.subset_append_left _ _) with rfl | rfl
  · exact fun _ hm => absurd hm List.not_mem_nil
  · intro directive hm _ definition hd
    cases List.mem_singleton.mp hm
    cases hd.symm.trans (show schema.directives.get? "include" = some includeDirective from rfl)
    intro input hinput argument hargument
    cases List.mem_singleton.mp hinput
    cases hargument
    exact everywhere_boolean (replaceable_flag true)

def prepared : Prepared where
  operation := operation
  rootType := schema.query
  variableValues := [("flag", .boolean true)]

theorem prepare_eq_ok : Execution.prepare {} schema document = .ok prepared := rfl

theorem returns : Execution.Returns {} schema application document () response () :=
  ⟨1, rfl⟩

/-- The field that the fragment brings in. -/
def group : FieldGroup where
  key := "echo"
  first :=
    { location := .start, aliased := none, name := "echo"
      arguments := [{ name := "flags", value := flagsLiteral }]
      directives := [condition], selections := [] }
  more := []

def environment : Environment Unit :=
  Execution.environment {} schema application document prepared

theorem collectGroups_eq :
    environment.collectGroups schema.query.name operation.selections = [group] := rfl

theorem field?_eq : schema.field? schema.query "echo" = some (.declared echoField) := rfl

theorem atFields_argumentsReplaceable :
    environment.AtFields (Execution.rootVisit {} prepared) fun found group =>
      schema.ArgumentsReplaceable "flag" flag.type found.definition.arguments
        group.first.arguments := by
  refine Environment.atFields_of_leaves fun group' hg found hf => ?_
  cases List.mem_singleton.mp (collectGroups_eq ▸ hg)
  cases hf.symm.trans field?_eq
  refine ⟨fun input hinput argument hargument => ?_, _, get?_boolean, rfl⟩
  cases List.mem_singleton.mp hinput
  cases hargument
  exact everywhere_flagsLiteral

theorem ignoresOperation : application.IgnoresOperation := by
  rintro _ _ _ h _ _
  cases h
  rfl

theorem ignoresNodes : application.IgnoresNodes := by
  rintro _ _ _ h _ _
  cases h
  rfl

end FlagSample

theorem Execution.returns_substituted_sample :
    FlagSample.description.build = .ok FlagSample.schema ∧
    Execution.Returns {} FlagSample.schema FlagSample.application FlagSample.substituted ()
      FlagSample.response () := by
  refine ⟨FlagSample.build_eq_ok, ?_⟩
  have hs : FlagSample.document.Selects none FlagSample.operation :=
    Document.operation?_eq_ok_iff.mp rfl
  have hs' : FlagSample.substituted.Selects none
      (FlagSample.operation.substitute "flag" (.boolean true)) :=
    Document.operation?_eq_ok_iff.mp rfl
  have hl : (FlagSample.schema.get? FlagSample.flag.type.innermost).isSome = true := by decide
  have hc : (Literal.boolean true).Constant := fun _ h => by cases h
  have harguments : ∀ prepared,
      Execution.prepare {} FlagSample.schema FlagSample.document = .ok prepared →
      (Execution.environment {} FlagSample.schema FlagSample.application FlagSample.document
        prepared).AtFields (Execution.rootVisit {} prepared) fun found group =>
          FlagSample.schema.ArgumentsReplaceable "flag" FlagSample.flag.type
            found.definition.arguments group.first.arguments := by
    intro prepared hp
    cases FlagSample.prepare_eq_ok.symm.trans hp
    exact FlagSample.atFields_argumentsReplaceable
  obtain ⟨-, hreturns⟩ := @returns_substituted {} FlagSample.schema FlagSample.document
    FlagSample.substituted FlagSample.operation [] [] FlagSample.flag (.boolean true) hs rfl
    (fun _ hm => absurd hm List.not_mem_nil) hl rfl rfl hc rfl Unit FlagSample.application
    (fun _ h => FlagSample.directivesReplaceable h) harguments hs' rfl
  exact (hreturns FlagSample.ignoresOperation FlagSample.ignoresNodes _ _ _).mpr
    FlagSample.returns

end GraphQL
