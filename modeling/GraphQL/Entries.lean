/-!
# `GraphQL/Entries.lean` — ordered tables

Wherever an answer shows the order of keys — members of a JSON object, entries of a map, fields of a
type — the table is a list of pairs in that order. `put` is the one way a key gets in: a new key
goes to the end, and a key that is there already keeps its place and takes the new entry. So a list
in which a key occurs twice becomes a table in which it has its first position and its last entry.
-/

set_option autoImplicit false

namespace GraphQL

/-- A table with text keys, in order. -/
abbrev Entries (α : Type) := List (String × α)

namespace Entries

variable {α β : Type}

/-- The entry under a key. -/
def get? : Entries α → String → Option α
  | [], _ => none
  | (key, entry) :: rest, wanted => if key = wanted then some entry else get? rest wanted

/-- Sets the entry under a key, in place if the key is there and at the end if it is not. -/
def put : Entries α → String → α → Entries α
  | [], key, entry => [(key, entry)]
  | (k, e) :: rest, key, entry =>
    if k = key then (k, entry) :: rest else (k, e) :: put rest key entry

/-- The table of a list of pairs, put in one after the other. -/
def ofList (pairs : List (String × α)) : Entries α :=
  pairs.foldl (fun table pair => put table pair.1 pair.2) []

/-- The keys, in order. -/
def keys (table : Entries α) : List String :=
  table.map Prod.fst

@[simp] theorem get?_nil (key : String) : get? ([] : Entries α) key = none := rfl

@[simp] theorem put_nil (key : String) (entry : α) : put [] key entry = [(key, entry)] := rfl

theorem get?_put (table : Entries α) (key wanted : String) (entry : α) :
    get? (put table key entry) wanted = if key = wanted then some entry else get? table wanted := by
  induction table with
  | nil => simp [get?, put]
  | cons pair rest ih =>
    obtain ⟨k, e⟩ := pair
    by_cases hk : k = key
    · subst hk
      by_cases hw : k = wanted <;> simp [put, get?, hw]
    · by_cases hw : k = wanted
      · subst hw
        simp [put, get?, hk, Ne.symm hk]
      · simp [put, get?, hk, hw, ih]

/-- A key that is put in leaves the order of the others alone. -/
theorem keys_put (table : Entries α) (key : String) (entry : α) :
    keys (put table key entry) =
      if key ∈ keys table then keys table else keys table ++ [key] := by
  induction table with
  | nil => simp [keys, put]
  | cons pair rest ih =>
    obtain ⟨k, e⟩ := pair
    by_cases hk : k = key
    · subst hk
      simp [keys, put]
    · have ih' : List.map Prod.fst (put rest key entry) =
          if key ∈ List.map Prod.fst rest then List.map Prod.fst rest
          else List.map Prod.fst rest ++ [key] := ih
      simp only [keys, put, hk, if_false, List.map_cons, ih', List.mem_cons, Ne.symm hk, false_or]
      split <;> simp

/-- A new key goes to the end. -/
theorem put_of_not_mem {table : Entries α} {key : String} (entry : α) (absent : key ∉ keys table) :
    put table key entry = table ++ [(key, entry)] := by
  induction table with
  | nil => rfl
  | cons pair rest ih =>
    obtain ⟨k, e⟩ := pair
    simp only [keys, List.map_cons, List.mem_cons, not_or] at absent
    have hk : ¬ k = key := fun h => absent.1 h.symm
    rw [put, if_neg hk, ih absent.2]
    rfl

/-- A list of pairs without repetition is the table that it makes. -/
theorem ofList_of_nodup {pairs : List (String × α)} (distinct : (keys pairs).Nodup) :
    ofList pairs = pairs := by
  suffices h : ∀ (rest table : Entries α), (keys (table ++ rest)).Nodup →
      rest.foldl (fun table pair => put table pair.1 pair.2) table = table ++ rest from
    h pairs [] distinct
  intro rest
  induction rest with
  | nil =>
    intro table _
    exact (List.append_nil table).symm
  | cons pair rest ih =>
    intro table nodup
    have absent : pair.1 ∉ keys table := by
      intro present
      rw [keys, List.map_append, List.nodup_append] at nodup
      exact nodup.2.2 pair.1 present pair.1 (by simp) rfl
    rw [List.foldl_cons, put_of_not_mem pair.2 absent, ih]
    · simp
    · simpa using nodup

end Entries

end GraphQL
