import GraphQL.Proofs.Execution.PureRuns
import GraphQL.Proofs.Input.EnumNames

/-!
# `GraphQL/Proofs/Execution/Settled.lean` — input that is given back

What is supplied with a request, what a literal says and what a resolver returns are read by three
recursions over lists and types, and each is lenient in its own way. They meet in the leaf types. A
built-in scalar type has values of one kind (`Scalar.Inhabits`), whichever way they were given, and
those it reads as themselves; so does an enum type whose values stand for themselves. A value with
such leaves, and with nulls only where its type allows them, is settled at the type
(`Schema.Settled`): to complete it there is to put it in its JSON form.

Supplied values are checked before they are read, and so they are read as settled values. Literals
are not, and a leaf that is refused is null wherever it stands; but that is all that can be wrong
with them (`Value.MisplacesNull`).
-/

set_option autoImplicit false

namespace GraphQL

/-! ## 1. The values of leaf types -/

namespace Scalar

/-- The values of the built-in scalar types. -/
inductive Inhabits : ScalarType → Value → Prop where
  | int (n : Int64) : Inhabits int (.int n)
  | float {x : Float} (hx : Binary64.isFinite x = true) : Inhabits float (.float x)
  | string (s : String) : Inhabits string (.string s)
  | boolean (b : Bool) : Inhabits boolean (.boolean b)
  | id (s : String) : Inhabits id (.string s)

variable {type : ScalarType} {value read : Value}

theorem inhabits_float {x : Option Float} (h : x.bind finite? = some read) :
    Inhabits float read := by
  obtain ⟨x, -, hx⟩ := Option.bind_eq_some_iff.mp h
  obtain ⟨hfinite, rfl⟩ := finite?_eq_some hx
  exact .float hfinite

theorem inhabits_of_coerce (hm : type ∈ builtIn) (h : type.coerce value = some read) :
    Inhabits type read := by
  simp only [builtIn, List.mem_cons, List.not_mem_nil, or_false] at hm
  rcases hm with rfl | rfl | rfl | rfl | rfl
  · obtain ⟨n, -, rfl⟩ := Option.map_eq_some_iff.mp h
    exact .int n
  · exact inhabits_float h
  · cases value <;> cases h <;> exact .string _
  · cases value <;> cases h <;> exact .boolean _
  · cases value <;> cases h <;> exact .id _

theorem inhabits_of_coerceLiteral (hm : type ∈ builtIn) {literal : Literal}
    (h : type.coerceLiteral literal = some read) : Inhabits type read := by
  simp only [builtIn, List.mem_cons, List.not_mem_nil, or_false] at hm
  rcases hm with rfl | rfl | rfl | rfl | rfl
  · cases literal with
    | int text =>
      obtain ⟨n, -, rfl⟩ := Option.map_eq_some_iff.mp h
      exact .int n
    | _ => cases h
  · cases literal with
    | int text => exact inhabits_float h
    | float text => exact inhabits_float h
    | _ => cases h
  · cases literal <;> cases h
    exact .string _
  · cases literal <;> cases h
    exact .boolean _
  · cases literal <;> cases h <;> exact .id _

theorem Inhabits.coerce_eq (h : Inhabits type value) : type.coerce value = some value := by
  cases h with
  | float hx => exact if_pos hx
  | _ => rfl

theorem Inhabits.isNull_toJson (h : Inhabits type value) : value.toJson.isNull = false := by
  cases h with
  | float hx =>
    rw [Value.toJson, Json.ofFloat, FiniteFloat.of?, dif_pos hx]
    rfl
  | _ => rfl

end Scalar

namespace EnumType

variable {type : EnumType}

theorem exists_of_coerce {value read : Value} (h : type.coerce value = some read) :
    ∃ entry ∈ type.values.entries, read = .string entry.name := by
  obtain ⟨entry, hfound, rfl⟩ := Option.map_eq_some_iff.mp h
  exact ⟨entry, List.mem_of_find?_eq_some hfound, rfl⟩

theorem exists_of_coerceLiteral {literal : Literal} {read : Value}
    (h : type.coerceLiteral literal = some read) :
    ∃ entry ∈ type.values.entries, read = .string entry.name := by
  cases literal with
  | enum name =>
    obtain ⟨entry, hfound, rfl⟩ := Option.map_eq_some_iff.mp h
    exact ⟨entry, (Table.get?_eq_some_iff.mp hfound).1, rfl⟩
  | _ => cases h

end EnumType

/-! ## 2. Settled values -/

/-- A null stands in a value where its type excludes it. -/
inductive Value.MisplacesNull : Value → TypeRef → Prop where
  | here {type : TypeRef} (hr : type.required = true) : MisplacesNull .null type
  | item {items : List Value} {value : Value} {item : TypeRef} {required : Bool}
    (hm : value ∈ items) (h : MisplacesNull value item) :
    MisplacesNull (.list items) (.list item required)

namespace Schema

variable (schema : Schema)

/-- A name that belongs to a built-in scalar type, or to an enum type whose values stand for
themselves. -/
inductive StandardLeaf (name : Name) : Prop where
  | scalar {type : ScalarType} (ht : schema.types.get? name = some (.scalar type))
    (hm : type ∈ Scalar.builtIn)
  | enum {type : EnumType} (ht : schema.types.get? name = some (.enum type)) (hs : type.SelfNamed)

/-- A value that is read as itself at a type: leaf types leave its leaves alone, and nulls stand
where they are allowed. -/
inductive Settled : Value → TypeRef → Prop where
  | null {type : TypeRef} (hr : type.required = false) : Settled .null type
  | list {items : List Value} {item : TypeRef} {required : Bool}
    (h : ∀ value ∈ items, Settled value item) : Settled (.list items) (.list item required)
  | leaf {value : Value} {name : Name} {required : Bool}
    (hv : schema.isValidLeaf value name = true) (hc : schema.coerceLeaf value name = value)
    (hn : value.toJson.isNull = false) : Settled value (.named name required)

variable {schema}

section Completion

variable {σ : Type} {application : Application σ}
variable {execute : ObjectType → Value → List Selection → Run σ Json.Members} {group : FieldGroup}

theorem completeNamed_of_isValidLeaf {value : Value} {name : Name}
    (hv : schema.isValidLeaf value name = true) :
    completeNamed schema application execute group name value =
      pure (schema.coerceLeaf value name).toJson := by
  unfold isValidLeaf at hv
  unfold completeNamed coerceLeaf
  split at hv
  · next type ht =>
    obtain ⟨read, hread⟩ := Option.isSome_iff_exists.mp hv
    simp only [ht, hread, leafData, Option.getD_some]
  · next type ht =>
    obtain ⟨read, hread⟩ := Option.isSome_iff_exists.mp hv
    simp only [ht, hread, leafData, Option.getD_some]
  · cases hv

/-- Settled values complete to their JSON form. -/
theorem Settled.complete_eq {value : Value} {type : TypeRef} (h : schema.Settled value type) :
    complete schema application execute group type value = pure value.toJson := by
  induction h with
  | null hr => exact complete_null hr
  | @list items item required _ ih =>
    have hitems : complete schema application execute group (.list item required)
        (.list (items.map fun value => value)) = pure (.array (items.map Value.toJson)) :=
      complete_items ih
    rwa [List.map_id', ← Value.itemsToJson_eq_map] at hitems
  | @leaf value name required hv hc hn =>
    have hvalue : value.isNull = false := by
      cases value <;> first | rfl | cases hn
    rw [complete, hvalue, completeNamed_of_isValidLeaf hv, hc]
    simp [excludeNull, hn]

end Completion

/-! ## 3. What is read is settled -/

section Reading

variable {name : Name} {required : Bool} {type : TypeRef} {value : Value} {literal : Literal}

theorem StandardLeaf.not_input (h : schema.StandardLeaf name) (type : InputObjectType) :
    schema.types.get? name ≠ some (.input type) := by
  intro hi
  cases h with
  | scalar ht => cases ht.symm.trans hi
  | enum ht => cases ht.symm.trans hi

/-- A leaf type leaves alone what it has read. -/
theorem settled_of_scalar {scalar : ScalarType}
    (ht : schema.types.get? name = some (.scalar scalar)) (h : Scalar.Inhabits scalar value) :
    schema.Settled value (.named name required) := by
  refine .leaf ?_ ?_ h.isNull_toJson
  · simp only [isValidLeaf, ht, h.coerce_eq, Option.isSome_some]
  · simp only [coerceLeaf, ht, h.coerce_eq, Option.getD_some]

theorem settled_of_enum {enum : EnumType} (ht : schema.types.get? name = some (.enum enum))
    (hs : enum.SelfNamed) (h : ∃ entry ∈ enum.values.entries, value = .string entry.name) :
    schema.Settled value (.named name required) := by
  obtain ⟨entry, hm, rfl⟩ := h
  refine .leaf ?_ ?_ rfl
  · simp only [isValidLeaf, ht, EnumType.owns_iff.mp (hs.owns hm), Option.isSome_some]
  · simp only [coerceLeaf, ht, EnumType.owns_iff.mp (hs.owns hm), Option.getD_some]

theorem StandardLeaf.settled_coerceLeaf (h : schema.StandardLeaf name)
    (hv : schema.isValidLeaf value name = true) :
    schema.Settled (schema.coerceLeaf value name) (.named name required) := by
  cases h with
  | scalar ht hm =>
    simp only [isValidLeaf, ht] at hv
    obtain ⟨read, hread⟩ := Option.isSome_iff_exists.mp hv
    simp only [coerceLeaf, ht, hread, Option.getD_some]
    exact settled_of_scalar ht (Scalar.inhabits_of_coerce hm hread)
  | enum ht hs =>
    simp only [isValidLeaf, ht] at hv
    obtain ⟨read, hread⟩ := Option.isSome_iff_exists.mp hv
    simp only [coerceLeaf, ht, hread, Option.getD_some]
    exact settled_of_enum ht hs (EnumType.exists_of_coerce hread)

/-- A literal is refused by a leaf type, or it is settled there. -/
theorem StandardLeaf.settled_coerceLeafLiteral (h : schema.StandardLeaf name) :
    schema.coerceLeafLiteral literal name = .null ∨
      schema.Settled (schema.coerceLeafLiteral literal name) (.named name required) := by
  cases h with
  | @scalar type ht hm =>
    simp only [coerceLeafLiteral, ht]
    cases hread : type.coerceLiteral literal with
    | none => exact Or.inl rfl
    | some read => exact Or.inr (settled_of_scalar ht (Scalar.inhabits_of_coerceLiteral hm hread))
  | @enum type ht hs =>
    simp only [coerceLeafLiteral, ht]
    cases hread : type.coerceLiteral literal with
    | none => exact Or.inl rfl
    | some read => exact Or.inr (settled_of_enum ht hs (EnumType.exists_of_coerceLiteral hread))

theorem settled_null (h : ¬ Value.null.MisplacesNull type) : schema.Settled .null type :=
  .null (Bool.eq_false_iff.mpr fun hr => h (.here hr))

/-- Valid values are read as settled values. -/
theorem settled_coerceSupplied (hl : schema.StandardLeaf type.innermost)
    (hv : schema.isValid value type = true) :
    schema.Settled (schema.coerceSupplied value type) type := by
  induction type generalizing value with
  | named name required =>
    have hname : schema.StandardLeaf name := hl
    cases hn : value.isNull with
    | true =>
      cases Value.isNull_iff.mp hn
      exact .null (by simpa [isValid] using hv)
    | false =>
      rw [isValid_leaf hn (Or.inr hname.not_input)] at hv
      rw [coerceSupplied_leaf hn (Or.inr hname.not_input)]
      exact hname.settled_coerceLeaf hv
  | list item required ih =>
    cases hs : value.isSingle with
    | true =>
      rw [isValid_single hs] at hv
      rw [coerceSupplied_single hs]
      exact .list (List.forall_mem_singleton.mpr (ih hl hv))
    | false =>
      cases value with
      | null => exact .null (by simpa [isValid] using hv)
      | list items =>
        rw [isValid, areValid_eq_all, List.all_eq_true] at hv
        rw [coerceSupplied, coerceSuppliedItems_eq_map]
        exact .list (List.forall_mem_map.mpr fun value hm => ih hl (hv value hm))
      | _ => cases hs

/-- Literals are read as settled values, but for nulls in the wrong place. -/
theorem settled_coerceLiteral (values : Entries Value) (hl : schema.StandardLeaf type.innermost)
    (hc : literal.Constant)
    (hm : ¬ (schema.coerceLiteral values literal type).MisplacesNull type) :
    schema.Settled (schema.coerceLiteral values literal type) type := by
  induction literal, type using Literal.readInduct with
  | null type => exact settled_null hm
  | var name type => exact absurd .here (hc name)
  | items items item required ih =>
    rw [coerceLiteral_list] at hm ⊢
    refine .list (List.forall_mem_map.mpr fun literal hmem => ?_)
    exact ih literal hmem hl (fun name hn => hc name (.item hmem hn))
      fun hitem => hm (.item (List.mem_map_of_mem hmem) hitem)
  | single literal item required hs ih =>
    rw [coerceLiteral_single values hs] at hm ⊢
    exact .list (List.forall_mem_singleton.mpr
      (ih hl hc fun hitem => hm (.item (List.mem_singleton_self _) hitem)))
  | named literal name required hn hv ih =>
    have hname : schema.StandardLeaf name := hl
    rw [coerceLiteral_leaf values hn hv (Or.inr hname.not_input)] at hm ⊢
    rcases hname.settled_coerceLeafLiteral with hnull | hsettled
    · rw [hnull] at hm ⊢
      exact settled_null hm
    · exact hsettled

end Reading

/-! ## 4. What is read is given back -/

/-- Input that is read at a type of built-in scalar types, enum types whose values stand for
themselves, lists and non-nulls is given back as it was read: to complete it at the same type
succeeds without an error, and comes to its JSON form. That is so for every supplied value that is
valid at the type, and for every literal without variables, unless it is read as a value with a null
where the type excludes it. A built-in scalar type reads what it has read as itself, supplied or
literal, and nothing that it reads has null for its JSON form. -/
theorem inputs_given_back (schema : Schema) :
    (∀ type : TypeRef, schema.StandardLeaf type.innermost →
      ∀ {σ : Type} (application : Application σ)
        (execute : ObjectType → Value → List Selection → Run σ Json.Members) (group : FieldGroup),
        (∀ value, schema.isValid value type = true →
          complete schema application execute group type (schema.coerceSupplied value type) =
            pure (schema.coerceSupplied value type).toJson) ∧
        ∀ (values : Entries Value) (literal : Literal), literal.Constant →
          ¬ (schema.coerceLiteral values literal type).MisplacesNull type →
          complete schema application execute group type
              (schema.coerceLiteral values literal type) =
            pure (schema.coerceLiteral values literal type).toJson) ∧
    ∀ scalar ∈ Scalar.builtIn,
      (∀ value read, scalar.coerce value = some read →
        scalar.coerce read = some read ∧ read.toJson ≠ .null) ∧
      ∀ literal read, scalar.coerceLiteral literal = some read →
        scalar.coerce read = some read ∧ read.toJson ≠ .null := by
  have hread : ∀ scalar read, Scalar.Inhabits scalar read →
      scalar.coerce read = some read ∧ read.toJson ≠ .null := by
    refine fun scalar read h => ⟨h.coerce_eq, fun hnull => ?_⟩
    exact Bool.false_ne_true (h.isNull_toJson.symm.trans (Json.isNull_iff.mpr hnull))
  refine ⟨fun type hl σ application execute group => ⟨?_, ?_⟩, fun scalar hm => ⟨?_, ?_⟩⟩
  · exact fun value hv => (settled_coerceSupplied hl hv).complete_eq
  · exact fun values literal hc hn => (settled_coerceLiteral values hl hc hn).complete_eq
  · exact fun value read h => hread _ _ (Scalar.inhabits_of_coerce hm h)
  · exact fun literal read h => hread _ _ (Scalar.inhabits_of_coerceLiteral hm h)

end Schema

namespace SettledSample

open InputSample (schema)

/-- The type `[[Int!]!]`. -/
def table : TypeRef :=
  .list (.list (.named "Int" true) true) false

/-- A row that is a single number, which is given as a text, and a row with a truth value. -/
def supplied : Value :=
  .list [.string " 7 ", .list [.boolean true, .int 2]]

def orders : TypeRef :=
  .list (.named "Order" false) true

/-- An enum value, and a text, which an enum type refuses in a document. -/
def literal : Literal :=
  .list [.enum "UP", .string "UP"]

def node : FieldNode where
  location := .start
  aliased := none
  name := "echo"
  arguments := []
  directives := []
  selections := []

/-- Completion for a field without selections. -/
def completed (type : TypeRef) (value : Value) : Run Unit Json :=
  complete schema default (fun _ _ _ => pure []) (.alone node) type value

theorem standardLeaf_int : schema.StandardLeaf "Int" :=
  .scalar InputSample.get?_int (by simp [Scalar.builtIn])

theorem standardLeaf_order : schema.StandardLeaf "Order" :=
  .enum InputSample.get?_order (List.forall_mem_cons.mpr ⟨rfl, List.forall_mem_singleton.mpr rfl⟩)

theorem constant_literal : literal.Constant := by
  rintro name (_ | ⟨hm, h⟩)
  simp only [List.mem_cons, List.not_mem_nil, or_false] at hm
  rcases hm with rfl | rfl <;> cases h

theorem coerceSupplied_supplied : schema.coerceSupplied supplied table =
    .list [.list [.int 7], .list [.int 1, .int 2]] := by
  rfl

theorem coerceLiteral_literal :
    schema.coerceLiteral [] literal orders = .list [.string "UP", .null] := by
  rfl

theorem not_misplacesNull :
    ¬ (Value.list [.string "UP", .null]).MisplacesNull orders := by
  rintro (⟨⟨⟩⟩ | ⟨hm, h⟩)
  simp only [List.mem_cons, List.not_mem_nil, or_false] at hm
  rcases hm with rfl | rfl
  · cases h
  · cases h with
    | here hr => cases hr

end SettledSample

theorem Schema.inputs_given_back_sample :
    InputSample.description.build = .ok InputSample.schema ∧
    InputSample.schema.StandardLeaf SettledSample.table.innermost ∧
    InputSample.schema.isValid SettledSample.supplied SettledSample.table = true ∧
    SettledSample.completed SettledSample.table
        (InputSample.schema.coerceSupplied SettledSample.supplied SettledSample.table) =
      pure (.array [.array [.ofInt 7], .array [.ofInt 1, .ofInt 2]]) ∧
    InputSample.schema.StandardLeaf SettledSample.orders.innermost ∧
    SettledSample.literal.Constant ∧
    SettledSample.completed SettledSample.orders
        (InputSample.schema.coerceLiteral [] SettledSample.literal SettledSample.orders) =
      pure (.array [.string "UP", .null]) ∧
    Scalar.int.coerce (.int 7) = some (.int 7) := by
  have hv : InputSample.schema.isValid SettledSample.supplied SettledSample.table = true := by
    decide
  obtain ⟨hgiven, hscalar⟩ := inputs_given_back InputSample.schema
  obtain ⟨hsupplied, -⟩ := hgiven SettledSample.table SettledSample.standardLeaf_int default
    (fun _ _ _ => pure []) (.alone SettledSample.node)
  obtain ⟨-, hliteral⟩ := hgiven SettledSample.orders SettledSample.standardLeaf_order default
    (fun _ _ _ => pure []) (.alone SettledSample.node)
  refine ⟨InputSample.build_eq_ok, SettledSample.standardLeaf_int, hv, ?_,
    SettledSample.standardLeaf_order, SettledSample.constant_literal, ?_, ?_⟩
  · refine (hsupplied SettledSample.supplied hv).trans ?_
    rw [SettledSample.coerceSupplied_supplied]
    rfl
  · have h := hliteral [] SettledSample.literal SettledSample.constant_literal
    rw [SettledSample.coerceLiteral_literal] at h
    rw [SettledSample.coerceLiteral_literal]
    exact h SettledSample.not_misplacesNull
  · have hread : Scalar.int.coerce (.string " 7 ") = some (.int 7) := rfl
    exact ((hscalar Scalar.int (by simp [Scalar.builtIn])).1 _ _ hread).1

end GraphQL
