import GraphQL.Input.Literal

/-!
# `GraphQL/Execution/Collection.lean` — which fields a selection set selects

Fields come from a selection set directly, through inline fragments and through fragment spreads.
Collection flattens all this to the list of field nodes that count for an object of a given type, in
the order of the document, and then groups the nodes by the key under which they stand in the
response.

Each fragment is expanded at most once in one collection, also if fragments spread each other in a
circle: a spread of a name that has been visited is passed over. A name is visited when a spread of
it is included, whether or not there is such a fragment. So along any one chain of spreads each
expansion visits a new name, and as many nested expansions as there are fragments are enough.
-/

set_option autoImplicit false

namespace GraphQL

/-! ## 1. Groups -/

/-- The field nodes that stand under one key of a response, in order. There is at least one, and the
first of them decides which field is resolved, and with which arguments. -/
structure FieldGroup where
  key : Name
  first : FieldNode
  more : List FieldNode
  deriving Inhabited

namespace FieldGroup

/-- All nodes of the group. -/
def nodes (group : FieldGroup) : List FieldNode :=
  group.first :: group.more

/-- The selections of all nodes of the group, one after the other. -/
def selections (group : FieldGroup) : List Selection :=
  group.nodes.flatMap (·.selections)

/-- Adds a node to the group of its key, which is a new group at the end if there is none. -/
def add : List FieldGroup → FieldNode → List FieldGroup
  | [], node => [{ key := node.key, first := node, more := [] }]
  | group :: rest, node =>
    if group.key = node.key then { group with more := group.more ++ [node] } :: rest
    else group :: add rest node

/-- Groups nodes by their keys, in the order in which the keys first occur. -/
def ofNodes (nodes : List FieldNode) : List FieldGroup :=
  nodes.foldl add []

/-- A node brings in its key if the key is new, and leaves the order of the others alone. -/
theorem keys_add (groups : List FieldGroup) (node : FieldNode) :
    (add groups node).map key =
      if node.key ∈ groups.map key then groups.map key else groups.map key ++ [node.key] := by
  induction groups with
  | nil => rfl
  | cons group rest ih =>
    by_cases h : group.key = node.key
    · simp [add, h]
    · have h' : ¬ node.key = group.key := fun e => h e.symm
      simp only [add, h, if_false, List.map_cons, ih, List.mem_cons, h', false_or]
      split
      · rfl
      · rfl

/-- No two groups have one key. -/
theorem nodup_keys_ofNodes (nodes : List FieldNode) : ((ofNodes nodes).map key).Nodup := by
  suffices h : ∀ groups : List FieldGroup, (groups.map key).Nodup →
      ((nodes.foldl add groups).map key).Nodup from h [] List.nodup_nil
  induction nodes with
  | nil =>
    intro groups h
    exact h
  | cons node rest ih =>
    intro groups h
    apply ih
    rw [keys_add]
    split
    · exact h
    · next absent =>
      rw [List.nodup_append]
      refine ⟨h, by simp, ?_⟩
      intro a ha b hb
      rw [List.mem_singleton] at hb
      rintro rfl
      exact absent (hb ▸ ha)

end FieldGroup

/-! ## 2. Directives -/

/-- What the meaning of a selection set depends on besides itself. -/
structure Scope where
  schema : Schema
  fragments : List Fragment
  variableValues : Entries Value

namespace Scope

variable (scope : Scope)

/-- The condition of a `skip` or `include` directive, if it comes out as a truth value. -/
def condition? (directive : DirectiveUse) : Option Bool := do
  let definition ← scope.schema.directives.get? directive.name
  let values :=
    scope.schema.coerceArguments scope.variableValues definition.arguments directive.arguments
  (← values.get? "if").boolean?

/-- Whether a node with these directives is included. The first that is `skip` or `include` decides;
if its condition does not come out, the node is included. -/
def includes : List DirectiveUse → Bool
  | [] => true
  | directive :: rest =>
    if directive.name = "skip" then !((scope.condition? directive).getD false)
    else if directive.name = "include" then (scope.condition? directive).getD true
    else includes rest

/-! ## 3. Collection -/

/-- Whether a fragment on a type counts for objects of an object type: the type is that object type,
or an abstract type that stands for it, and it can be reached from the roots. -/
def applies (objectType : Name) (condition : Name) : Bool :=
  match scope.schema.get? condition with
  | some (.object _) => condition = objectType
  | some (.interface _) | some (.union _) => scope.schema.isPossibleType condition objectType
  | _ => false

/-- Field nodes found so far, and the names of fragments visited so far. -/
structure Collected where
  nodes : List FieldNode := []
  visited : List Name := []

mutual

/-- Collects from one selection; `expand` collects from the selections of a fragment. -/
def collectOne (objectType : Name) (expand : List Selection → Collected → Collected) :
    Selection → Collected → Collected
  | .field head selections, found =>
    if scope.includes head.directives then
      { found with nodes := found.nodes ++ [{ toFieldHead := head, selections }] }
    else found
  | .inline condition directives selections, found =>
    if scope.includes directives && condition.all (scope.applies objectType) then
      collectAll objectType expand selections found
    else found
  | .spread name directives, found =>
    if found.visited.contains name || !scope.includes directives then found
    else
      let found := { found with visited := name :: found.visited }
      match Fragment.find? scope.fragments name with
      | none => found
      | some fragment =>
        if scope.includes fragment.directives && scope.applies objectType fragment.condition then
          expand fragment.selections found
        else found

/-- Collects from selections, one after the other. -/
def collectAll (objectType : Name) (expand : List Selection → Collected → Collected) :
    List Selection → Collected → Collected
  | [], found => found
  | selection :: rest, found =>
    collectAll objectType expand rest (collectOne objectType expand selection found)

end

/-- Collects with at most `depth` expansions of fragments inside each other. -/
def collectWithin (objectType : Name) : Nat → List Selection → Collected → Collected
  | 0 => scope.collectAll objectType fun _ found => found
  | depth + 1 => scope.collectAll objectType (collectWithin objectType depth)

/-- The field nodes that selections select on an object type, in the order of the document. -/
def collect (objectType : Name) (selections : List Selection) : List FieldNode :=
  (scope.collectWithin objectType scope.fragments.length selections {}).nodes

/-- The same nodes, grouped by response key. -/
def collectGroups (objectType : Name) (selections : List Selection) : List FieldGroup :=
  FieldGroup.ofNodes (scope.collect objectType selections)

end Scope

end GraphQL
