import GraphQL.Proofs.Schema.Reachability
import GraphQL.Proofs.Schema.Registration

/-!
# `GraphQL/Proofs/Schema/DepthFirst.lean` — the list of reachable types, exactly

The list of reachable types is found by visits inside each other, each given a count of how many
more there may be. What is meant by it has no count and no recursion: an agenda of names, from which
the first is taken, and if it is new, all that it leads to goes in front of the rest
(`Table.DepthFirst`). From a start there is one order in which names are visited like this
(`Table.DepthFirst.unique`), and the visits inside each other are it, however large the count is
beyond the number of types (`Table.depthFirst_walk`).

Which names are visited is read off the agenda: nothing gets on it that a name on it does not lead
to (`Table.DepthFirst.reaches`). That nothing is left out is the law about walks, in
`GraphQL/Proofs/Schema/Reachability.lean`. What leads to what is said type by type in
`Schema.Edge`, apart from the order in which edges are followed.
-/

set_option autoImplicit false

namespace GraphQL

/-! ## 1. What leads to what -/

/-- The ways in which one name leads to another. -/
inductive Schema.Edge (schema : Schema) : Name → Name → Prop where
  /-- An abstract type leads to the object types that it stands for, -/
  | possibleType {name next : Name} {type : TypeDefinition}
    (ht : schema.types.get? name = some type) (ha : type.isAbstract = true)
    (hn : next ∈ schema.possibleTypes name) : Edge schema name next
  /-- an object type to the interfaces that it implements, -/
  | interface {name next : Name} {type : ObjectType}
    (ht : schema.types.get? name = some (.object type)) (hn : next ∈ type.interfaces) :
    Edge schema name next
  /-- an object or interface type to the types of its fields -/
  | field {name : Name} {type : TypeDefinition} {fields : Table FieldDefinition}
    {field : FieldDefinition} (ht : schema.types.get? name = some type)
    (hf : type.fields? = some fields) (hm : field ∈ fields.entries) :
    Edge schema name field.type.innermost
  /-- and to those of their arguments, -/
  | argument {name : Name} {type : TypeDefinition} {fields : Table FieldDefinition}
    {field : FieldDefinition} {argument : InputValueDefinition}
    (ht : schema.types.get? name = some type) (hf : type.fields? = some fields)
    (hm : field ∈ fields.entries) (ha : argument ∈ field.arguments) :
    Edge schema name argument.type.innermost
  /-- and an input object type to the types of its fields. -/
  | inputField {name : Name} {type : InputObjectType} {field : InputValueDefinition}
    (ht : schema.types.get? name = some (.input type)) (hm : field ∈ type.fields.entries) :
    Edge schema name field.type.innermost

theorem TypeDefinition.fieldEdges_subset_edges {types : Table TypeDefinition}
    {type : TypeDefinition} {fields : Table FieldDefinition} (hf : type.fields? = some fields) :
    Table.fieldEdges fields ⊆ type.edges types := by
  cases type with
  | object type =>
    cases hf
    exact List.subset_append_right _ _
  | interface type =>
    cases hf
    exact List.subset_append_right _ _
  | _ => cases hf

theorem TypeDefinition.possibleTypes_subset_edges {types : Table TypeDefinition}
    {type : TypeDefinition} (ha : type.isAbstract = true) :
    types.possibleTypes type.name ⊆ type.edges types := by
  cases type with
  | interface type => exact List.subset_append_left _ _
  | union type => exact List.Subset.refl _
  | _ => cases ha

namespace Schema

variable {schema : Schema} {name next : Name}

theorem edge_of_mem_fieldEdges {type : TypeDefinition} {fields : Table FieldDefinition}
    (ht : schema.types.get? name = some type) (hf : type.fields? = some fields)
    (hn : next ∈ Table.fieldEdges fields) : schema.Edge name next := by
  obtain ⟨field, hm, h⟩ := Table.mem_fieldEdges.mp hn
  rcases h with ⟨argument, ha, rfl⟩ | rfl
  · exact .argument ht hf hm ha
  · exact .field ht hf hm

/-- The edges that a walk follows are all there are. -/
theorem follows_iff : schema.types.Follows name next ↔ schema.Edge name next := by
  constructor
  · rintro ⟨type, ht, hn⟩
    have hname : type.name = name := (Table.get?_eq_some_iff.mp ht).2
    cases type with
    | scalar type => cases hn
    | enum type => cases hn
    | object type =>
      rcases List.mem_append.mp hn with hn | hn
      · exact .interface ht hn
      · exact edge_of_mem_fieldEdges ht rfl hn
    | interface type =>
      rcases List.mem_append.mp hn with hn | hn
      · exact .possibleType ht rfl (hname ▸ hn)
      · exact edge_of_mem_fieldEdges ht rfl hn
    | union type => exact .possibleType ht rfl (hname ▸ hn)
    | input type =>
      obtain ⟨field, hm, rfl⟩ := List.mem_map.mp hn
      exact .inputField ht hm
  · intro h
    cases h with
    | possibleType ht ha hn =>
      rw [← (Table.get?_eq_some_iff.mp ht).2] at hn
      exact ⟨_, ht, TypeDefinition.possibleTypes_subset_edges ha hn⟩
    | interface ht hn => exact ⟨_, ht, List.mem_append_left _ hn⟩
    | field ht hf hm =>
      have hn := Table.mem_fieldEdges.mpr ⟨_, hm, Or.inr rfl⟩
      exact ⟨_, ht, TypeDefinition.fieldEdges_subset_edges hf hn⟩
    | argument ht hf hm ha =>
      have hn := Table.mem_fieldEdges.mpr ⟨_, hm, Or.inl ⟨_, ha, rfl⟩⟩
      exact ⟨_, ht, TypeDefinition.fieldEdges_subset_edges hf hn⟩
    | inputField ht hm => exact ⟨_, ht, List.mem_map_of_mem hm⟩

end Schema

/-! ## 2. Visiting in depth -/

namespace Table

variable {types : Table TypeDefinition}

/-- From names that have been seen and an agenda, the order of the names visited after them. A name
that is visited puts all that it leads to in front of the rest of the agenda. -/
inductive DepthFirst (types : Table TypeDefinition) :
    List Name → List Name → List Name → Prop where
  | done {seen : List Name} : DepthFirst types seen [] []
  | passed {seen rest order : List Name} {name : Name}
    (hp : name ∈ seen ∨ name ∉ types.names) (hr : DepthFirst types seen rest order) :
    DepthFirst types seen (name :: rest) order
  | visited {seen rest order : List Name} {name : Name} {type : TypeDefinition}
    (hn : name ∉ seen) (ht : types.get? name = some type)
    (hr : DepthFirst types (seen ++ [name]) (type.edges types ++ rest) order) :
    DepthFirst types seen (name :: rest) (name :: order)

namespace DepthFirst

variable {seen agenda order : List Name}

/-- There is one order. -/
theorem unique (h : types.DepthFirst seen agenda order) {order' : List Name}
    (h' : types.DepthFirst seen agenda order') : order' = order := by
  induction h generalizing order' with
  | done =>
    cases h'
    rfl
  | passed hp _ ih =>
    cases h' with
    | passed _ hr => exact ih hr
    | visited hn ht _ =>
      have hregistered := mem_names_iff.mpr ⟨_, ht⟩
      exact absurd hp (not_or.mpr ⟨hn, not_not.mpr hregistered⟩)
  | visited hn ht _ ih =>
    cases h' with
    | passed hp _ =>
      have hregistered := mem_names_iff.mpr ⟨_, ht⟩
      exact absurd hp (not_or.mpr ⟨hn, not_not.mpr hregistered⟩)
    | visited _ ht' hr =>
      cases ht.symm.trans ht'
      rw [ih hr]

/-- A name on the agenda leads to whatever is visited. -/
theorem reaches (h : types.DepthFirst seen agenda order) :
    ∀ name ∈ order, ∃ start ∈ agenda, Relation.ReflTransGen types.Follows start name := by
  induction h with
  | done => exact List.forall_mem_nil _
  | passed _ _ ih =>
    intro name hm
    obtain ⟨start, hs, hf⟩ := ih name hm
    exact ⟨start, List.mem_cons_of_mem _ hs, hf⟩
  | @visited _ _ _ visited type _ ht _ ih =>
    refine List.forall_mem_cons.mpr ⟨⟨visited, List.mem_cons_self, .refl⟩, fun name hm => ?_⟩
    obtain ⟨start, hs, hf⟩ := ih name hm
    rcases List.mem_append.mp hs with hs | hs
    · exact ⟨visited, List.mem_cons_self, .head ⟨type, ht, hs⟩ hf⟩
    · exact ⟨start, List.mem_cons_of_mem _ hs, hf⟩

end DepthFirst

/-- What walking to several names does to the order: the types that it newly finds are those that
are visited for these names, and the rest of an agenda is left for later. -/
def Orders (types : Table TypeDefinition) (names : List Name)
    (found after : List TypeDefinition) : Prop :=
  ∃ new, after = found ++ new ∧ ∀ rest order,
    types.DepthFirst (after.map (·.name)) rest order →
      types.DepthFirst (found.map (·.name)) (names ++ rest) (new.map (·.name) ++ order)

namespace Orders

variable {names : List Name} {found between after : List TypeDefinition}

theorem nil (found : List TypeDefinition) : types.Orders [] found found :=
  ⟨[], (List.append_nil found).symm, fun _ _ h => h⟩

/-- A name that is passed over. -/
theorem passed {name : Name} (hp : name ∈ found.map (·.name) ∨ name ∉ types.names) :
    types.Orders [name] found found :=
  ⟨[], (List.append_nil found).symm, fun _ _ h => .passed hp h⟩

theorem cons {name : Name} {rest : List Name} (h : types.Orders [name] found between)
    (h' : types.Orders rest between after) : types.Orders (name :: rest) found after := by
  obtain ⟨new, rfl, hd⟩ := h
  obtain ⟨new', rfl, hd'⟩ := h'
  refine ⟨new ++ new', List.append_assoc _ _ _, fun more order hmore => ?_⟩
  rw [List.map_append, List.append_assoc]
  exact hd _ _ (hd' _ _ hmore)

/-- A walk to all that a new type leads to is the visit of the type. -/
theorem of_edges {type : TypeDefinition} (ht : types.get? type.name = some type)
    (hn : type.name ∉ found.map (·.name))
    (h : types.Orders (type.edges types) (found ++ [type]) after) :
    types.Orders [type.name] found after := by
  obtain ⟨new, rfl, hd⟩ := h
  refine ⟨type :: new, List.append_assoc _ _ _, fun rest order hrest => ?_⟩
  have hinner := hd rest order hrest
  rw [List.map_append] at hinner
  exact .visited hn ht hinner

end Orders

/-- A walk to each of several names orders them, if each of the walks does. -/
theorem orders_foldl {visit : List TypeDefinition → Name → List TypeDefinition} {bound : Nat}
    (hv : ∀ found name, types.Finds found → bound ≤ found.length →
      types.Walks [name] found (visit found name) ∧ types.Orders [name] found (visit found name))
    (names : List Name) :
    ∀ {found : List TypeDefinition}, types.Finds found → bound ≤ found.length →
      types.Orders names found (names.foldl visit found) := by
  induction names with
  | nil =>
    intro found _ _
    exact .nil found
  | cons name rest ih =>
    intro found hf hl
    obtain ⟨hwalk, horder⟩ := hv found name hf hl
    exact horder.cons (ih hwalk.finds (Nat.le_trans hl hwalk.grows.length_le))

/-- Visits inside each other are a visit in depth, if they may go as deep as there are types left to
find. -/
theorem orders_visit (depth : Nat) {found : List TypeDefinition} (hf : types.Finds found)
    (hl : types.entries.length ≤ depth + found.length) (name : Name) :
    types.Orders [name] found (types.visit depth found name) := by
  induction depth generalizing found name with
  | zero =>
    -- As many types have been found as there are, so every registered name has been seen.
    rw [Nat.zero_add] at hl
    refine .passed ?_
    by_cases hr : name ∈ types.names
    · exact Or.inl (hf.mem_of_length_le hl hr)
    · exact Or.inr hr
  | succ depth ih =>
    rw [visit]
    split
    · next hnone =>
      refine .passed (Or.inr fun hr => ?_)
      obtain ⟨type, ht⟩ := mem_names_iff.mp hr
      cases hnone.symm.trans ht
    · next type ht =>
      obtain ⟨hm, hname⟩ := get?_eq_some_iff.mp ht
      change type.name = name at hname
      subst hname
      split
      · next hany => exact .passed (Or.inl (any_iff.mp hany))
      · next hany =>
        have hnew : type.name ∉ found.map (·.name) := fun h => hany (any_iff.mpr h)
        have hstep : ∀ found name, types.Finds found → types.entries.length - depth ≤ found.length →
            types.Walks [name] found (types.visit depth found name) ∧
              types.Orders [name] found (types.visit depth found name) :=
          fun found name hf hl =>
            ⟨walks_visit depth hf (by omega) name, ih hf (by omega) name⟩
        have hlength : types.entries.length - depth ≤ (found ++ [type]).length := by
          rw [List.length_append, List.length_singleton]
          omega
        exact .of_edges ht hnew (orders_foldl hstep _ (hf.concat hm hnew) hlength)

/-- A walk that may go deeper than there are types visits its names in depth. -/
theorem depthFirst_walk {depth : Nat} (hd : types.entries.length ≤ depth) (names : List Name) :
    types.DepthFirst [] names ((names.foldl (types.visit depth) []).map (·.name)) := by
  have hvisit : ∀ found name, types.Finds found → 0 ≤ found.length →
      types.Walks [name] found (types.visit depth found name) ∧
        types.Orders [name] found (types.visit depth found name) :=
    fun found name hf _ =>
      ⟨walks_visit depth hf (by omega) name, orders_visit depth hf (by omega) name⟩
  obtain ⟨new, hnew, horder⟩ := orders_foldl hvisit names .nil (Nat.zero_le 0)
  have hall := horder [] [] .done
  rw [List.append_nil, List.append_nil] at hall
  rw [hnew]
  exact hall

/-! ## 3. The built-in scalar types after the walk -/

theorem names_foldl_include {names : List Name} (hr : names ⊆ types.names) (hd : names.Nodup)
    (found : List TypeDefinition) :
    (names.foldl types.include found).map (·.name) =
      found.map (·.name) ++ names.filter (· ∉ found.map (·.name)) := by
  induction names generalizing found with
  | nil => simp
  | cons name rest ih =>
    rw [List.nodup_cons] at hd
    obtain ⟨hname, hrest⟩ := List.cons_subset.mp hr
    obtain ⟨type, ht⟩ := mem_names_iff.mp hname
    have htype : type.name = name := (get?_eq_some_iff.mp ht).2
    rw [List.foldl_cons, ih hrest hd.2, Table.include, ht]
    dsimp only
    split
    · next hany =>
      rw [List.filter_cons_of_neg (by simpa using any_iff.mp hany)]
    · next hany =>
      have hnew : name ∉ found.map (·.name) := fun h => hany (any_iff.mpr h)
      -- No later name is this one, so which of them are missing has not changed.
      have hsame : (rest.filter fun other => other ∉ (found ++ [type]).map (·.name)) =
          rest.filter fun other => other ∉ found.map (·.name) := by
        refine List.filter_congr fun other ho => ?_
        have hne : other ≠ name := fun h => hd.1 (h ▸ ho)
        simp [htype, hne]
      rw [hsame, List.filter_cons_of_pos (by simpa using hnew), List.map_append,
        List.map_singleton, htype, List.append_assoc, List.singleton_append]

end Table

/-! ## 4. The list of a built schema -/

/-- The names that the walk for the list of reachable types starts from: the root types, and the
type of `__schema`. -/
def Schema.starts (schema : Schema) : List Name :=
  rootNames schema.query schema.mutation ++ ["__Schema"]

namespace SchemaDescription.Builds

variable {description : SchemaDescription} {schema : Schema}

theorem registered_start (hb : description.Builds schema) : schema.starts ⊆ schema.types.names := by
  intro name hn
  rcases List.mem_append.mp hn with hn | hn
  · rcases List.mem_cons.mp hn with rfl | hn
    · exact Table.mem_names_iff.mpr ⟨_, hb.get?_query⟩
    · rw [Option.mem_toList, Option.map_eq_some_iff] at hn
      obtain ⟨type, hm, rfl⟩ := hn
      exact Table.mem_names_iff.mpr ⟨_, hb.get?_mutation hm⟩
  · rw [List.mem_singleton] at hn
    subst hn
    exact Table.mem_names_iff.mpr ⟨_, hb.get?_schemaType⟩

/-- Whatever the roots lead to is registered. -/
theorem registered_of_reaches (hb : description.Builds schema) {name : Name}
    (h : schema.Reaches name) : name ∈ schema.types.names := by
  obtain ⟨root, hroot, hf⟩ := h
  cases hf with
  | refl => exact hb.registered_start hroot
  | tail _ hstep =>
    obtain ⟨type, ht, hn⟩ := hstep
    exact hb.registered_of_edge (Table.get?_eq_some_iff.mp ht).1 hn

theorem names_reachable (hb : description.Builds schema) :
    schema.reachable.map (·.name) =
      (schema.types.walked (rootNames schema.query schema.mutation)).map (·.name) ++
        builtInScalarNames.filter
          (· ∉ (schema.types.walked (rootNames schema.query schema.mutation)).map (·.name)) := by
  have hd : builtInScalarNames.Nodup := by decide
  rw [schema.reachable_eq]
  exact Table.names_foldl_include hb.registered_builtIn hd _

/-- The built-in scalar types are listed, or the types that have taken their names. -/
theorem lists_builtIn (hb : description.Builds schema) {name : Name}
    (hn : name ∈ builtInScalarNames) : schema.Lists name := by
  rw [Schema.Lists, hb.names_reachable, List.mem_append]
  by_cases hw : name ∈ (schema.types.walked (rootNames schema.query schema.mutation)).map (·.name)
  · exact Or.inl hw
  · exact Or.inr (List.mem_filter.mpr ⟨hn, decide_eq_true hw⟩)

end SchemaDescription.Builds

namespace Schema

variable {description : SchemaDescription} {schema : Schema}

theorem reaches_iff {name : Name} : schema.Reaches name ↔
    ∃ start ∈ schema.starts, Relation.ReflTransGen schema.Edge start name := by
  have hedge : schema.types.Follows = schema.Edge := by
    funext name next
    exact propext follows_iff
  rw [Reaches, hedge]
  rfl

/-- What can be looked up among the reachable types is what is registered, if it is listed. -/
theorem get?_eq_of_lists {name : Name} (h : schema.Lists name) :
    schema.get? name = schema.types.get? name := by
  obtain ⟨type, ht, rfl⟩ := get?_eq_some h
  rw [ht, get?_of_mem_reachable (List.mem_of_find?_eq_some ht)]

theorem nodup_reachable (hb : description.Builds schema) :
    (schema.reachable.map (·.name)).Nodup := by
  have hd : builtInScalarNames.Nodup := by decide
  have hwalks : schema.types.Walks _ [] (schema.types.walked _) :=
    Table.walks_walked (rootNames schema.query schema.mutation)
  have hw := hwalks.finds.distinct
  rw [hb.names_reachable, List.nodup_append]
  refine ⟨hw, hd.filter _, ?_⟩
  rintro name hm _ hf rfl
  exact of_decide_eq_true (List.mem_filter.mp hf).2 hm

/-- The list of reachable types is exact. Its names are those visited in depth from the roots, of
which there is one order, with the built-in scalar types that are not among them at the end. No name
is there twice. A name is there if the roots lead to it, along any edges, or if it is that of a
built-in scalar type, and for no other reason. What is listed under a name is what is registered
under it, and something is. And the walk comes to its end by itself: it makes no difference how many
visits inside each other it is allowed, as soon as there may be as many as there are types. -/
theorem reachable_exactly (hb : description.build = .ok schema) :
    ∃ visited : List Name,
      (∀ order, schema.types.DepthFirst [] schema.starts order ↔ order = visited) ∧
      schema.reachable.map (·.name) = visited ++ builtInScalarNames.filter (· ∉ visited) ∧
      (schema.reachable.map (·.name)).Nodup ∧
      (∀ name, schema.Lists name ↔
        (∃ start ∈ schema.starts, Relation.ReflTransGen schema.Edge start name) ∨
          name ∈ builtInScalarNames) ∧
      (∀ name, schema.get? name = if schema.Lists name then schema.types.get? name else none) ∧
      (∀ name, schema.Lists name → ∃ type, schema.types.get? name = some type) ∧
      ∀ depth, schema.types.entries.length ≤ depth →
        (schema.starts.foldl (schema.types.visit depth) []).map (·.name) = visited := by
  have hbuilds := SchemaDescription.builds hb
  have horder : schema.types.DepthFirst [] schema.starts
      ((schema.types.walked (rootNames schema.query schema.mutation)).map (·.name)) :=
    Table.depthFirst_walk (Nat.le_refl _) schema.starts
  refine ⟨_, fun order => ⟨horder.unique, fun h => h ▸ horder⟩, hbuilds.names_reachable,
    nodup_reachable hbuilds, fun name => ?_, fun name => ?_, fun name hl => ?_, fun depth hd => ?_⟩
  · rw [← reaches_iff]
    constructor
    · intro hl
      rw [Lists, hbuilds.names_reachable, List.mem_append] at hl
      rcases hl with hw | hf
      · exact Or.inl (horder.reaches name hw)
      · exact Or.inr (List.mem_filter.mp hf).1
    · rintro (h | hn)
      · exact mem_reachable_of_reaches h (hbuilds.registered_of_reaches h)
      · exact hbuilds.lists_builtIn hn
  · split
    · next hl => exact get?_eq_of_lists hl
    · next hl => exact get?_eq_none hl
  · obtain ⟨type, ht, -⟩ := get?_eq_some hl
    exact ⟨type, get?_eq_of_lists hl ▸ ht⟩
  · exact horder.unique (Table.depthFirst_walk hd schema.starts)

end Schema

namespace Sample

/-- Types that lead back to each other in every way, and one that nothing leads to. -/
def circularDescription : SchemaDescription where
  query := some "Query"
  mutation := some "Mutation"
  types := [
    .object {
      name := "Mutation"
      fields := .ofList [{ name := "add", type := .named "Book" false }] },
    .object {
      name := "Query"
      fields := .ofList [
        { name := "node", type := .named "Node" false },
        { name := "search"
          arguments := [{ name := "filter", type := .named "Filter" false }]
          type := .list (.named "Found" true) false }] },
    .interface {
      name := "Node"
      fields := .ofList [{ name := "next", type := .named "Node" false }] },
    .object {
      name := "Author"
      interfaces := ["Node"]
      fields := .ofList [{ name := "books", type := .list (.named "Book" true) true }] },
    .object {
      name := "Book"
      interfaces := ["Node"]
      fields := .ofList [{ name := "author", type := .named "Author" true }] },
    .union { name := "Found", members := ["Book", "Author"] },
    .input {
      name := "Filter"
      fields := .ofList [
        { name := "text", type := .named "String" false },
        { name := "not", type := .named "Filter" false }] },
    .enum { name := "Unlisted", values := .ofList [{ name := "ONE" }] }]

theorem isSome_build_circular : circularDescription.build.toOption.isSome = true := by
  decide

def circular : Schema :=
  circularDescription.build.toOption.get isSome_build_circular

theorem build_circular : circularDescription.build = .ok circular :=
  Except.eq_ok_get isSome_build_circular

/-- The names that its roots lead to, in the order of the visits. -/
def circularOrder : List Name :=
  ["Query", "Node", "Author", "Book", "Filter", "String", "Found", "Mutation", "__Schema", "__Type",
    "__TypeKind", "Boolean", "__Field", "__InputValue", "__EnumValue", "__Directive"]

end Sample

theorem Schema.reachable_exactly_sample :
    Sample.circularDescription.build = .ok Sample.circular ∧
      (∀ order, Sample.circular.types.DepthFirst [] Sample.circular.starts order ↔
        order = Sample.circularOrder) ∧
      Sample.circular.reachable.map (·.name) = Sample.circularOrder ++ ["Int", "Float", "ID"] ∧
      ¬ ∃ start ∈ Sample.circular.starts,
        Relation.ReflTransGen Sample.circular.Edge start "Unlisted" := by
  obtain ⟨visited, horder, hnames, -, hlists, -, -, hwalk⟩ := reachable_exactly Sample.build_circular
  have hvisited : Sample.circularOrder = visited := by
    rw [← hwalk _ (Nat.le_refl _)]
    decide
  subst hvisited
  have hmissing : builtInScalarNames.filter (· ∉ Sample.circularOrder) = ["Int", "Float", "ID"] := by
    decide
  rw [hmissing] at hnames
  refine ⟨Sample.build_circular, horder, hnames, fun h => ?_⟩
  have hunlisted : ¬ Sample.circular.Lists "Unlisted" := by decide
  exact hunlisted ((hlists "Unlisted").mpr (Or.inl h))

end GraphQL
