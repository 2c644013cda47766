import GraphQL.Proofs.Execution.Isolation
import GraphQL.Proofs.Input.Variations

/-!
# `GraphQL/Proofs/Execution/FieldOrder.lean` — fields in another order

Fields that do not see each other can run in any order. Each of them comes to what it comes to by
itself; together they come to all members and all errors, or they fail because one of them does
(`Environment.executeGroups_of_parts`). Neither which of them fail nor what the others come to
depends on the order. After a failure it does depend on the order which fields have run at all, and
so it does which errors there are.

For the same reason a depth that is enough for one order need not be enough for another, in which
more of the fields run. In a document without cyclic fragments there is one that is enough for all.
-/

set_option autoImplicit false

namespace GraphQL

theorem Bounded.of_subset {fragments : List Fragment} {depth : Nat}
    {selections more : List Selection} (h : Bounded fragments depth more)
    (hs : selections ⊆ more) : Bounded fragments depth selections := by
  cases depth with
  | zero => exact h
  | succ depth => exact fun below ho => h below (ho.mono hs)

theorem Entries.keys_append {α : Type} (first second : Entries α) :
    keys (first ++ second) = first.keys ++ second.keys :=
  List.map_append

/-- The selection that selects a node. -/
def FieldNode.text (node : FieldNode) : Selection :=
  .field node.toFieldHead node.selections

namespace Environment

/-! ## 1. What groups come to together -/

section Parts

variable {env : Environment Unit}
variable {execute : ObjectType → Value → List Selection → Run Unit Json.Members}
variable {type : ObjectType} {source : Value} {nodes nodes' : List FieldNode}
variable {part : FieldNode → Outcome Json.Members}

/-- Nodes with keys of their own fail together if one of them fails by itself. Otherwise they have
all members and all errors that they have by themselves, in order. -/
theorem executeGroups_of_parts (h : ∀ node ∈ nodes,
      env.executeGroups execute type source [.alone node] () = some (part node, ())) :
    ∃ outcome, env.executeGroups execute type source (nodes.map .alone) () = some (outcome, ()) ∧
      (outcome.result = none ↔ ∃ node ∈ nodes, (part node).result = none) ∧
      ∀ members, outcome.result = some members →
        members = nodes.flatMap (fun node => (part node).result.getD []) ∧
        outcome.errors = nodes.flatMap fun node => (part node).errors := by
  induction nodes with
  | nil => exact ⟨_, rfl, by simp, fun members hm => ⟨(Option.some.inj hm).symm, rfl⟩⟩
  | cons node rest ih =>
    rw [List.forall_mem_cons] at h
    obtain ⟨others, hrun, hfails, hmembers⟩ := ih h.2
    obtain ⟨hnode, -⟩ := h
    cases hpart : (part node).result with
    | none =>
      refine ⟨_, executeGroups_of_failure hpart hnode _, by simp [hpart], fun members hm => ?_⟩
      rw [hpart] at hm
      cases hm
    | some first =>
      have hmk : part node = { result := some first, errors := (part node).errors } := by
        rw [← hpart]
      rw [hmk] at hnode
      refine ⟨_, executeGroups_of_members hnode hrun, ?_, fun members hm => ?_⟩
      · simp [Outcome.after, hfails, hpart]
      · obtain ⟨more, hmore, rfl⟩ := Option.map_eq_some_iff.mp hm
        obtain ⟨rfl, herrors⟩ := hmembers more hmore
        simp [Outcome.after, hpart, herrors]

/-- By itself, a node that does not fail has a member if the type has the field. -/
theorem RunsGroup.keys_eq {node : FieldNode} {outcome : Outcome Json.Members}
    (h : env.RunsGroup execute type source (.alone node) () outcome ()) {members : Json.Members}
    (hm : outcome.result = some members) :
    members.keys = if (env.schema.field? type node.name).isSome then [node.key] else [] := by
  cases h with
  | missing hf =>
    have hname : env.schema.field? type node.name = none := hf
    cases hm
    rw [hname]
    rfl
  | resolved hf =>
    have hname : env.schema.field? type node.name = some _ := hf
    obtain ⟨data, -, rfl⟩ := Option.map_eq_some_iff.mp hm
    rw [hname]
    rfl

/-- Together, nodes that do not fail have a member for each field that the type has. -/
theorem keys_of_parts (h : ∀ node ∈ nodes,
      env.executeGroups execute type source [.alone node] () = some (part node, ()))
    (hs : ∀ node ∈ nodes, (part node).result ≠ none) :
    Entries.keys (nodes.flatMap fun node => (part node).result.getD []) =
      (nodes.filter fun node => (env.schema.field? type node.name).isSome).map (·.key) := by
  induction nodes with
  | nil => rfl
  | cons node rest ih =>
    rw [List.forall_mem_cons] at h hs
    obtain ⟨members, hm⟩ := Option.ne_none_iff_exists'.mp hs.1
    have hkeys := (runsGroup h.1).keys_eq hm
    rw [List.flatMap_cons, hm, Option.getD_some, List.filter_cons, Entries.keys_append,
      ih h.2 hs.2, hkeys]
    split <;> rfl

end Parts

/-! ## 2. Enough depth -/

/-- More depth changes nothing that has been finished. -/
theorem executeSelections_mono {σ : Type} {env : Environment σ} {depth depth' : Nat}
    (hd : depth ≤ depth') {type : ObjectType} {source : Value} {selections : List Selection}
    {s s' : σ} {outcome : Outcome Json.Members}
    (h : env.executeSelections depth type source selections s = some (outcome, s')) :
    env.executeSelections depth' type source selections s = some (outcome, s') := by
  have hrun := congrFun (env.executeSelections_eq_toRun depth type source selections) s
  have hrun' := congrFun (env.executeSelections_eq_toRun depth' type source selections) s
  rw [Run.map_apply, Traced.toRun, Traced.run] at hrun hrun'
  rw [h, Option.map_some] at hrun
  obtain ⟨⟨trace, s₁⟩, ht, he⟩ := Option.map_eq_some_iff.mp hrun.symm
  rw [traceSelections_mono hd ht, Option.map_some, he] at hrun'
  obtain ⟨⟨outcome', s₂⟩, hr, ho⟩ := Option.map_eq_some_iff.mp hrun'
  obtain ⟨hmap, rfl⟩ := Prod.mk.inj ho
  obtain ⟨hresult, herrors⟩ := Outcome.mk.inj hmap
  rw [hr]
  have hmembers : outcome'.result = outcome.result :=
    Option.map_injective (fun _ _ => Json.object.inj) hresult
  obtain ⟨result, errors⟩ := outcome
  obtain ⟨result', errors'⟩ := outcome'
  cases hmembers
  cases herrors
  rfl

/-! ## 3. Another order -/

section Order

variable {scope : Scope} {objectType : Name} {nodes : List FieldNode}

theorem collectGroups_of_nodup (hi : ∀ node ∈ nodes, scope.includes node.directives = true)
    (hd : (nodes.map (·.key)).Nodup) :
    scope.collectGroups objectType (nodes.map FieldNode.text) = nodes.map .alone := by
  have hcollect : scope.collect objectType (nodes.map FieldNode.text) = nodes :=
    Scope.collect_fields hi
  rw [Scope.collectGroups, hcollect, FieldGroup.ofNodes_of_nodup hd]

end Order

section Selections

variable {env : Environment Unit} {type : ObjectType} {source : Value} {nodes : List FieldNode}

/-- Without cyclic fragments there is a depth at which each node comes to something by itself. -/
theorem exists_parts (hacyclic : Acyclic env.fragments) (type : ObjectType) (source : Value)
    (hi : ∀ node ∈ nodes, env.includes node.directives = true) :
    ∃ (depth : Nat) (part : FieldNode → Outcome Json.Members), ∀ node ∈ nodes,
      env.executeGroups (env.executeSelections depth) type source [.alone node] () =
        some (part node, ()) := by
  obtain ⟨bound, hb⟩ := (hacyclic.wellNested (nodes.map FieldNode.text)).exists_bounded
  obtain ⟨depth, rfl⟩ : ∃ depth, bound = depth + 1 := by
    cases bound with
    | zero => cases hb
    | succ depth => exact ⟨depth, rfl⟩
  have hall : ∀ node ∈ nodes, ∃ outcome, env.executeGroups (env.executeSelections depth) type
      source [.alone node] () = some (outcome, ()) := by
    intro node hm
    have htext : [node.text] ⊆ nodes.map FieldNode.text :=
      List.cons_subset.mpr ⟨List.mem_map_of_mem hm, List.nil_subset _⟩
    have hinc : ∀ other ∈ [node], env.includes other.directives = true :=
      List.forall_mem_singleton.mpr (hi node hm)
    have hgroups : env.collectGroups type.name [node.text] = [.alone node] :=
      collectGroups_of_nodup hinc (List.nodup_singleton _)
    obtain ⟨outcome, _, hr⟩ := env.executeSelections_total (hb.of_subset htext) type source ()
    rw [executeSelections, hgroups] at hr
    exact ⟨outcome, hr⟩
  have hnonempty : Nonempty (Outcome Json.Members) := ⟨{ result := none }⟩
  choose! part hpart using hall
  exact ⟨depth, part, hpart⟩

theorem executeSelections_of_groups (hi : ∀ node ∈ nodes, env.includes node.directives = true)
    (hd : (nodes.map (·.key)).Nodup) {depth more : Nat} (hmore : depth + 1 ≤ more)
    {outcome : Outcome Json.Members}
    (h : env.executeGroups (env.executeSelections depth) type source (nodes.map .alone) () =
      some (outcome, ())) :
    env.executeSelections more type source (nodes.map FieldNode.text) () = some (outcome, ()) := by
  refine executeSelections_mono hmore ?_
  rwa [executeSelections, collectGroups_of_nodup hi hd]

end Selections

/-- Fields with keys of their own can be selected in any order, if resolvers have no effects and no
fragment spreads itself. A selection set fails in one order if and only if it fails in any other. If
it does not, it has a member for each field that the type has, in the order of the selections; under
each key there is the same value; and there are the same errors, in another order. -/
theorem fields_in_any_order (env : Environment Unit) (hacyclic : Acyclic env.fragments)
    (type : ObjectType) (source : Value) {nodes nodes' : List FieldNode}
    (hi : ∀ node ∈ nodes, env.includes node.directives = true)
    (hd : (nodes.map (·.key)).Nodup) (hp : nodes.Perm nodes') :
    ∃ outcome outcome' bound,
      (∀ depth, bound ≤ depth →
        env.executeSelections depth type source (nodes.map FieldNode.text) () = some (outcome, ()) ∧
        env.executeSelections depth type source (nodes'.map FieldNode.text) () =
          some (outcome', ())) ∧
      (outcome'.result = none ↔ outcome.result = none) ∧
      ∀ members, outcome.result = some members → ∃ members', outcome'.result = some members' ∧
        members.keys =
          (nodes.filter fun node => (env.schema.field? type node.name).isSome).map (·.key) ∧
        members'.keys =
          (nodes'.filter fun node => (env.schema.field? type node.name).isSome).map (·.key) ∧
        (∀ key, members'.get? key = members.get? key) ∧
        outcome'.errors.Perm outcome.errors := by
  obtain ⟨depth, part, hpart⟩ := exists_parts hacyclic type source hi
  have hpart' : ∀ node ∈ nodes', env.executeGroups (env.executeSelections depth) type source
      [.alone node] () = some (part node, ()) := fun node hm => hpart node (hp.mem_iff.mpr hm)
  obtain ⟨outcome, hrun, hfails, hmembers⟩ := executeGroups_of_parts hpart
  obtain ⟨outcome', hrun', hfails', hmembers'⟩ := executeGroups_of_parts hpart'
  have hsame : outcome'.result = none ↔ outcome.result = none := by
    simp only [hfails, hfails', hp.mem_iff]
  have hi' : ∀ node ∈ nodes', env.includes node.directives = true :=
    fun node hm => hi node (hp.mem_iff.mpr hm)
  have hd' : (nodes'.map (·.key)).Nodup := (hp.map _).nodup_iff.mp hd
  refine ⟨outcome, outcome', depth + 1, fun more hmore => ⟨?_, ?_⟩, hsame, fun members hm => ?_⟩
  · exact executeSelections_of_groups hi hd hmore hrun
  · exact executeSelections_of_groups hi' hd' hmore hrun'
  · have hsome : ∀ node ∈ nodes, (part node).result ≠ none := by
      intro node hmem hnone
      cases hm.symm.trans (hfails.mpr ⟨node, hmem, hnone⟩)
    obtain ⟨members', hm'⟩ := Option.ne_none_iff_exists'.mp fun hnone => by
      cases hm.symm.trans (hsame.mp hnone)
    have hkeys := keys_of_parts hpart hsome
    have hkeys' := keys_of_parts hpart' fun node hmem => hsome node (hp.mem_iff.mpr hmem)
    obtain ⟨rfl, herrors⟩ := hmembers members hm
    obtain ⟨rfl, herrors'⟩ := hmembers' members' hm'
    refine ⟨_, hm', hkeys, hkeys', Entries.get?_of_perm ?_ (hp.flatMap_right _), ?_⟩
    · rw [hkeys]
      exact hd.sublist (List.filter_sublist.map _)
    · rw [herrors, herrors']
      exact (hp.flatMap_right _).symm

end Environment

/-! ## 4. Two orders to look at -/

namespace Sample

/-- A field that fails inside and absorbs the failure, a leaf, and a field that the type does not
have. -/
def nodes : List FieldNode :=
  [failingGroup.first,
    { location := .start, aliased := none, name := "name", arguments := [], directives := []
      selections := [] },
    { location := .start, aliased := none, name := "other", arguments := [], directives := []
      selections := [] }]

end Sample

theorem Environment.fields_in_any_order_sample : Acyclic Sample.environment.fragments ∧
    (Sample.nodes.map (·.key)).Nodup ∧ Sample.nodes.Perm Sample.nodes.reverse ∧
    ∃ outcome outcome' bound,
      (∀ depth, bound ≤ depth →
        Sample.environment.executeSelections depth Sample.schema.query (.map [])
          (Sample.nodes.map FieldNode.text) () = some (outcome, ()) ∧
        Sample.environment.executeSelections depth Sample.schema.query (.map [])
          (Sample.nodes.reverse.map FieldNode.text) () = some (outcome', ())) ∧
      (outcome'.result = none ↔ outcome.result = none) ∧
      ∀ members, outcome.result = some members → ∃ members', outcome'.result = some members' ∧
        members.keys = ["first", "name"] ∧ members'.keys = ["name", "first"] ∧
        (∀ key, members'.get? key = members.get? key) ∧
        outcome'.errors.Perm outcome.errors := by
  have hi : ∀ node ∈ Sample.nodes, Sample.environment.includes node.directives = true :=
    List.forall_mem_cons.mpr ⟨rfl, List.forall_mem_cons.mpr
      ⟨rfl, List.forall_mem_singleton.mpr rfl⟩⟩
  have hd : (Sample.nodes.map (·.key)).Nodup := by decide
  have hp := (List.reverse_perm Sample.nodes).symm
  exact ⟨Sample.acyclic_environment, hd, hp, fields_in_any_order Sample.environment
    Sample.acyclic_environment Sample.schema.query (.map []) hi hd hp⟩

end GraphQL
