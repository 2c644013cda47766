import Mathlib.Data.List.Nodup
import GraphQL.Proofs.Execution.Grouping
import GraphQL.Proofs.Execution.Response

/-!
# `GraphQL/Proofs/Execution/Conformance.lean` — the data of a response conforms to the operation

`Conforms` is the contract between a response and whoever sent the operation, in terms of the
operation and the schema alone: null only where it is allowed, leaves that the leaf type made, lists
of conforming items, and objects of a type that the declared type allows, with exactly the response
keys that are selected on that type. No trace, no outcome and no resolver occurs in it.

`Execution.data_conforms` says that every response keeps the contract, whatever the resolvers do.
The reason is that a trace fits (`Trace.Fits`), and that where nothing is passed on from the parts
of a value all parts are there: an object either has all of its fields or fails as a whole.
-/

set_option autoImplicit false

namespace GraphQL

/-! ## 1. Conforming -/

/-- The response keys of field nodes on an object type: each where it first occurs, if the first
node that has it names a field of the type. -/
def Schema.responseKeys (schema : Schema) (type : ObjectType) (nodes : List FieldNode) :
    List Name :=
  (nodes.map (·.key)).eraseDups.filter fun key =>
    (nodes.find? (·.key = key)).any fun first => (schema.field? type first.name).isSome

mutual

/-- Data conforms to a declared type and to the selections that apply there. -/
inductive Conforms (scope : Scope) : TypeRef → List Selection → Json → Prop where
  | null {type : TypeRef} {selections : List Selection} (h : type.required = false) :
    Conforms scope type selections .null
  | leaf {name : Name} {required : Bool} {selections : List Selection} {data : Json}
    (h : scope.schema.LeafData name data) (hn : required = true → data.isNull = false) :
    Conforms scope (.named name required) selections data
  | list {item : TypeRef} {required : Bool} {selections : List Selection} {items : List Json}
    (hi : ∀ data ∈ items, Conforms scope item selections data) :
    Conforms scope (.list item required) selections (.array items)
  | object {name : Name} {required : Bool} {selections : List Selection} {type : ObjectType}
    {members : Json.Members} (hr : scope.schema.RuntimeType name type)
    (hm : MembersConform scope type selections members) :
    Conforms scope (.named name required) selections (.object members)

/-- The members of an object conform to its type and to the selections on it: they stand under the
response keys, in order, and what stands under a key conforms to the field that the first node of
the key names and to the selections of all nodes of the key. -/
inductive MembersConform (scope : Scope) : ObjectType → List Selection → Json.Members → Prop where
  | intro {type : ObjectType} {selections : List Selection} {members : Json.Members}
    {nodes : List FieldNode} (hn : scope.collect type.name selections = nodes)
    (hk : members.keys = scope.schema.responseKeys type nodes) (hd : members.keys.Nodup)
    (hv : ∀ key data first found, (key, data) ∈ members →
      nodes.find? (·.key = key) = some first → scope.schema.field? type first.name = some found →
      Conforms scope found.definition.type
        ((nodes.filter (·.key = key)).flatMap (·.selections)) data) :
    MembersConform scope type selections members

end

/-- What conforms to a type that excludes null is not null. -/
theorem Conforms.isNull_eq_false {scope : Scope} {type : TypeRef} {selections : List Selection}
    {data : Json} (h : Conforms scope type selections data) (hr : type.required = true) :
    data.isNull = false := by
  cases h with
  | null hn =>
    rw [hr] at hn
    cases hn
  | leaf _ hn => exact hn hr
  | list _ => rfl
  | object _ _ => rfl

/-! ## 2. The selected fields and their keys -/

namespace Scope

variable {scope : Scope} {type : ObjectType} {selections : List Selection}

theorem keys_selectedFields_eq_filter :
    (scope.selectedFields type selections).map (·.group.key) =
      ((scope.collectGroups type.name selections).filter fun group =>
        (scope.schema.field? type group.first.name).isSome).map (·.key) := by
  unfold selectedFields
  induction scope.collectGroups type.name selections with
  | nil => rfl
  | cons group rest ih =>
    rw [List.filterMap_cons, List.filter_cons]
    cases scope.schema.field? type group.first.name with
    | none => exact ih
    | some found => exact congrArg (group.key :: ·) ih

theorem nodup_keys_selectedFields :
    ((scope.selectedFields type selections).map (·.group.key)).Nodup := by
  rw [keys_selectedFields_eq_filter]
  exact (List.filter_sublist.map _).nodup (FieldGroup.nodup_keys_ofNodes _)

theorem keys_selectedFields :
    (scope.selectedFields type selections).map (·.group.key) =
      scope.schema.responseKeys type (scope.collect type.name selections) := by
  rw [keys_selectedFields_eq_filter, Schema.responseKeys, ← FieldGroup.keys_ofNodes,
    List.filter_map]
  refine congrArg (List.map FieldGroup.key) (List.filter_congr fun group hg => ?_)
  rw [Function.comp_apply, FieldGroup.find?_eq_first hg, Option.any_some]

/-- A field is selected under a key if the first node of the key names it. -/
theorem selectedField_of_find? {key : Name} {first : FieldNode} {found : FoundField}
    (hf : (scope.collect type.name selections).find? (·.key = key) = some first)
    (hd : scope.schema.field? type first.name = some found) :
    ∃ field ∈ scope.selectedFields type selections, field.group.key = key ∧ field.found = found ∧
      field.group.selections =
        ((scope.collect type.name selections).filter (·.key = key)).flatMap (·.selections) := by
  have hk : key ∈ (scope.collectGroups type.name selections).map (·.key) := by
    rw [collectGroups, FieldGroup.keys_ofNodes, List.mem_eraseDups]
    have he : first.key = key := by simpa using List.find?_some hf
    rw [← he]
    exact List.mem_map_of_mem (List.mem_of_find?_eq_some hf)
  obtain ⟨group, hg, rfl⟩ := List.mem_map.mp hk
  have hfirst : some group.first = some first :=
    (FieldGroup.find?_eq_first hg).symm.trans hf
  cases hfirst
  refine ⟨{ group, found }, mem_selectedFields.mpr ⟨hg, hd⟩, rfl, rfl, ?_⟩
  show group.nodes.flatMap _ = _
  rw [FieldGroup.nodes_of_mem_ofNodes hg]

end Scope

/-! ## 3. What fits conforms -/

section Fitting

variable {scope : Scope}

theorem Position.conforms_of_settle {position : Position} {selections : List Selection}
    {result : Option Json} {data : Json} (hs : position.settle result = some data)
    (hc : ∀ data, result = some data → Conforms scope position.type selections data) :
    Conforms scope position.type selections data := by
  rcases Position.settle_eq_some hs with h | ⟨-, hr, rfl⟩
  · exact hc data h
  · exact .null hr

theorem keys_entries {type : ObjectType} {selections : List Selection}
    {entries : List (Position × Json)}
    (hp : entries.map (·.1) = scope.fieldPositions type selections) :
    Entries.keys (entries.map fun entry => (entry.1.group.key, entry.2)) =
      (scope.selectedFields type selections).map (·.group.key) := by
  have h := congrArg (List.map (·.group.key)) hp
  rw [Scope.fieldPositions, List.map_map, List.map_map] at h
  rw [Entries.keys, List.map_map]
  exact h

/-- Entries that conform, one for each selected field in order, make members that conform. -/
theorem membersConform_of_entries {type : ObjectType} {selections : List Selection}
    {entries : List (Position × Json)}
    (hp : entries.map (·.1) = scope.fieldPositions type selections)
    (hc : ∀ entry ∈ entries, Conforms scope entry.1.type entry.1.group.selections entry.2) :
    MembersConform scope type selections
      (entries.map fun entry => (entry.1.group.key, entry.2)) := by
  refine .intro rfl ((keys_entries hp).trans Scope.keys_selectedFields) ?_ ?_
  · rw [keys_entries hp]
    exact Scope.nodup_keys_selectedFields
  · intro key data first found hm hf hd
    obtain ⟨field, hfield, hkey, rfl, hsel⟩ := Scope.selectedField_of_find? hf hd
    obtain ⟨⟨position, data'⟩, he, h⟩ := List.mem_map.mp hm
    obtain ⟨hkey', rfl⟩ := Prod.mk.inj h
    have hpos : position ∈ scope.fieldPositions type selections := by
      rw [← hp]
      exact List.mem_map_of_mem he
    obtain ⟨other, hother, rfl⟩ := List.mem_map.mp hpos
    -- Both stand under one key, and no two selected fields do.
    have hsame : other = field :=
      List.inj_on_of_nodup_map Scope.nodup_keys_selectedFields hother hfield
        (hkey'.trans hkey.symm)
    subst hsame
    rw [← hsel]
    exact hc _ he

theorem Trace.entries_conform {children : List (Position × Trace)}
    {entries : List (Position × Json)} (hr : partResults children = some entries)
    (hc : ∀ child ∈ children, ∀ data, child.2.result = some data →
      Conforms scope child.1.type child.1.group.selections data) :
    ∀ entry ∈ entries, Conforms scope entry.1.type entry.1.group.selections entry.2 := by
  rintro ⟨position, data⟩ he
  obtain ⟨trace, hm, hs⟩ := (mem_partResults hr).mp he
  exact Position.conforms_of_settle hs (hc _ hm)

theorem Shape.Opens.conforms {shape : Shape} {type : TypeRef} {selections : List Selection}
    {positions : List Position} (ho : shape.Opens scope type selections positions)
    {entries : List (Position × Json)} (hp : entries.map (·.1) = positions)
    (hc : ∀ entry ∈ entries, Conforms scope entry.1.type entry.1.group.selections entry.2) :
    Conforms scope type selections (shape.assemble entries) := by
  cases ho with
  | @list item _ group _ count hs =>
    -- All items are at positions of the item type, with the selections of the field.
    refine .list fun data hd => ?_
    obtain ⟨entry, he, rfl⟩ := List.mem_map.mp hd
    have hpos : entry.1 ∈ (List.range count).map (itemPosition item group) := by
      rw [← hp]
      exact List.mem_map_of_mem he
    obtain ⟨index, -, hi⟩ := List.mem_map.mp hpos
    have h := hc entry he
    rw [← hi] at h
    rw [← hs]
    exact h
  | object hr => exact .object hr (membersConform_of_entries hp hc)

/-- The data that a fitting trace comes to conforms. -/
theorem Trace.Fits.conforms {extent : Extent} {type : TypeRef} {selections : List Selection}
    {trace : Trace} (h : trace.Fits scope extent type selections) {data : Json}
    (hr : trace.result = some data) : Conforms scope type selections data := by
  induction h generalizing data with
  | null hn =>
    cases hr
    exact .null hn
  | leaf hl hn =>
    cases hr
    exact .leaf hl hn
  | fault _ => cases hr
  | @parts type selections shape positions children ho ht _ ih =>
    rw [result] at hr
    obtain ⟨entries, he, rfl⟩ := Option.map_eq_some_iff.mp hr
    exact ho.conforms (ht.map_fst_eq he) (entries_conform he fun child hm data hd => ih child hm hd)

end Fitting

/-! ## 4. Every response conforms -/

section Response

variable {scope : Scope} {extent : Extent} {type : ObjectType} {selections : List Selection}
variable {children : List (Position × Trace)}

theorem Trace.Fits.through {name : Name} {required : Bool}
    (h : (Trace.parts (.object type selections) children).Fits scope extent
      (.named name required) selections) :
    Through extent (scope.fieldPositions type selections) children := by
  cases h with
  | parts ho ht _ =>
    cases ho with
    | object _ => exact ht

/-- An object fails only through a field whose type excludes null. -/
theorem Trace.Fits.exists_required {name : Name} {required : Bool}
    (h : (Trace.parts (.object type selections) children).Fits scope extent
      (.named name required) selections) (hr : partResults children = none) :
    ∃ field ∈ scope.selectedFields type selections,
      field.found.definition.type.required = true := by
  obtain ⟨child, hm, hp⟩ := partResults_eq_none_iff.mp hr
  obtain ⟨field, hf, hpos⟩ := List.mem_map.mp (h.through.isPrefix.subset (List.mem_map_of_mem hm))
  rw [Position.passesOn, Option.isNone_iff_eq_none, Position.settle_eq_none_iff, ← hpos] at hp
  exact ⟨field, hf, hp.2⟩

/-- If no field passes a failure on, the members of an object conform to its own type. -/
theorem Trace.Fits.membersConform {name : Name} {required : Bool}
    (h : (Trace.parts (.object type selections) children).Fits scope extent
      (.named name required) selections)
    {entries : List (Position × Json)} (hr : partResults children = some entries) :
    MembersConform scope type selections
      (entries.map fun entry => (entry.1.group.key, entry.2)) := by
  have hp := h.through.map_fst_eq hr
  cases h with
  | parts _ _ hc =>
    exact membersConform_of_entries hp
      (entries_conform hr fun child hm data hd => (hc child hm).conforms hd)

end Response

/-- Response conformance. The data of every response to an execution on a built schema conforms to
the operation: the members of an object to the root type and the selections of the operation; null
occurs only if a root field excludes it; and there is no data only if execution never began. -/
theorem Execution.data_conforms {description : SchemaDescription} {schema : Schema}
    (hb : description.build = .ok schema) {σ : Type} {application : Application σ}
    {execution : Execution} {document : Document} {s s' : σ} {response : Response}
    (hr : execution.Returns schema application document s response s') :
    match response.data with
    | .object members => ∃ prepared, execution.prepare schema document = .ok prepared ∧
        MembersConform (prepared.scope schema document) prepared.rootType
          prepared.operation.selections members
    | .null => ∃ prepared, execution.prepare schema document = .ok prepared ∧
        ∃ field ∈ (prepared.scope schema document).selectedFields prepared.rootType
          prepared.operation.selections, field.found.definition.type.required = true
    | .absent => ∃ error, execution.prepare schema document = .error error := by
  cases hp : execution.prepare schema document with
  | error error =>
    obtain ⟨depth, hr⟩ := hr
    rw [run?, hp] at hr
    cases hr
    exact ⟨error, rfl⟩
  | ok prepared =>
    obtain ⟨trace, ht, rfl⟩ := (returns_iff_traces hp).mp hr
    have hf := ht.fits ((SchemaDescription.builds hb).runtimeType_rootOf (prepare_eq_ok hp).2.1)
    rw [toScope_environment] at hf
    obtain ⟨children, rfl⟩ := ht.eq_parts
    cases he : Trace.partResults children with
    | none =>
      rw [Trace.data_response_of_none he]
      exact ⟨prepared, rfl, hf.exists_required he⟩
    | some entries =>
      rw [Trace.data_response_of_some he]
      exact ⟨prepared, rfl, hf.membersConform he⟩

theorem Execution.data_conforms_sample : ∃ members, Sample.response.data = .object members ∧
    members.keys = ["first", "name"] ∧
    ∃ prepared, Execution.prepare {} Sample.schema Sample.document = .ok prepared ∧
      MembersConform (prepared.scope Sample.schema Sample.document) prepared.rootType
        prepared.operation.selections members := by
  have hc := data_conforms Sample.build_eq_ok Sample.returns
  have hk : Sample.response.data.members?.map Entries.keys = some ["first", "name"] := by
    decide
  obtain ⟨members, hm, hk⟩ := Option.map_eq_some_iff.mp hk
  have hd := ResponseData.eq_object_of_members? hm
  rw [hd] at hc
  exact ⟨members, hd, hk, hc⟩

end GraphQL
