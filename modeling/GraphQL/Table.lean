import GraphQL.TypeRef

/-!
# `GraphQL/Table.lean` — tables of named things

Types, fields, enum values and directives carry their own names, and what holds several of them
holds no name twice. A `Table` is such a list: the order is that in which the names first came in,
and that they are distinct is part of the type, so looking a name up and listing the entries can
never disagree.
-/

set_option autoImplicit false

namespace GraphQL

/-- Things that carry a name. -/
class Named (α : Type) where
  name : α → Name

/-- Entries with distinct names, in order. -/
structure Table (α : Type) [Named α] where
  entries : List α
  distinct : (entries.map Named.name).Nodup

namespace Table

variable {α : Type} [Named α]

/-- The table without entries. -/
def empty : Table α :=
  { entries := [], distinct := List.nodup_nil }

instance : Inhabited (Table α) := ⟨empty⟩

/-- The names, in order. -/
def names (table : Table α) : List Name :=
  table.entries.map Named.name

/-- The entry of a name. -/
def get? (table : Table α) (name : Name) : Option α :=
  table.entries.find? fun entry => Named.name entry = name

/-- Whether there is an entry of a name. -/
def contains (table : Table α) (name : Name) : Bool :=
  table.entries.any fun entry => Named.name entry = name

/-- Puts an entry in the place of the one of its name, or at the end. -/
def putEntry (entry : α) : List α → List α
  | [] => [entry]
  | other :: rest =>
    if Named.name other = Named.name entry then entry :: rest else other :: putEntry entry rest

theorem names_putEntry (entry : α) (entries : List α) :
    (putEntry entry entries).map Named.name =
      if Named.name entry ∈ entries.map Named.name then entries.map Named.name
      else entries.map Named.name ++ [Named.name entry] := by
  induction entries with
  | nil => simp [putEntry]
  | cons other rest ih =>
    by_cases h : Named.name other = Named.name entry
    · simp [putEntry, h]
    · have h' : ¬ Named.name entry = Named.name other := fun e => h e.symm
      simp only [putEntry, h, if_false, List.map_cons, ih, List.mem_cons, h', false_or]
      split <;> simp

/-- Adds an entry. An entry of the same name is replaced where it stands. -/
def put (table : Table α) (entry : α) : Table α :=
  { entries := putEntry entry table.entries
    distinct := by
      rw [names_putEntry]
      split
      · exact table.distinct
      · next absent =>
        rw [List.nodup_append]
        refine ⟨table.distinct, by simp, ?_⟩
        intro a ha b hb
        rw [List.mem_singleton] at hb
        rintro rfl
        exact absent (hb ▸ ha) }

/-- The table of a list of entries, put in one after the other. -/
def ofList (entries : List α) : Table α :=
  entries.foldl put empty

/-- The table with an entry at its end, if the name is new. -/
def insert? (table : Table α) (entry : α) : Option (Table α) :=
  if table.contains (Named.name entry) then none else some (table.put entry)

@[simp] theorem entries_empty : (empty : Table α).entries = [] := rfl

@[simp] theorem names_empty : (empty : Table α).names = [] := rfl

theorem contains_iff {table : Table α} {name : Name} :
    table.contains name = true ↔ name ∈ table.names := by
  simp [contains, names]

theorem names_put (table : Table α) (entry : α) :
    (table.put entry).names =
      if Named.name entry ∈ table.names then table.names
      else table.names ++ [Named.name entry] :=
  names_putEntry entry table.entries

theorem putEntry_of_not_mem {entry : α} {entries : List α}
    (absent : Named.name entry ∉ entries.map Named.name) :
    putEntry entry entries = entries ++ [entry] := by
  induction entries with
  | nil => rfl
  | cons other rest ih =>
    simp only [List.map_cons, List.mem_cons, not_or] at absent
    have h : ¬ Named.name other = Named.name entry := fun e => absent.1 e.symm
    simp [putEntry, h, ih absent.2]

/-- An entry of a new name goes to the end. -/
theorem entries_put_of_not_mem {table : Table α} {entry : α}
    (absent : Named.name entry ∉ table.names) :
    (table.put entry).entries = table.entries ++ [entry] :=
  putEntry_of_not_mem absent

theorem get?_eq_some_iff {table : Table α} {name : Name} {entry : α} :
    table.get? name = some entry ↔ entry ∈ table.entries ∧ Named.name entry = name := by
  obtain ⟨entries, distinct⟩ := table
  simp only [get?]
  induction entries with
  | nil => simp
  | cons other rest ih =>
    simp only [List.map_cons, List.nodup_cons] at distinct
    by_cases h : Named.name other = name
    · simp only [List.find?_cons, h, decide_true, Option.some.injEq, List.mem_cons]
      constructor
      · rintro rfl
        exact ⟨Or.inl rfl, h⟩
      · rintro ⟨rfl | hm, hn⟩
        · rfl
        · exact absurd (List.mem_map_of_mem (f := Named.name) hm)
            (by rw [hn, ← h]; exact distinct.1)
    · simp only [List.find?_cons, h, decide_false, List.mem_cons, ih distinct.2]
      constructor
      · rintro ⟨hm, hn⟩
        exact ⟨Or.inr hm, hn⟩
      · rintro ⟨rfl | hm, hn⟩
        · exact absurd hn h
        · exact ⟨hm, hn⟩

end Table

end GraphQL
