import GraphQL.Proofs.Execution.Expansion

/-!
# `GraphQL/Proofs/Execution/Passes.lean` — a collection pass as it happens

Collection is written with a depth, which is there so that the recursion ends and is not part of
what is meant. `Scope.Collects` is what is meant: one rule for each thing that can happen to a
selection, and among them the only way in which a fragment is expanded. A derivation is one pass
over selections, with the state before and after it and the names of the fragments expanded on the
way.

Two theorems tie the two together: the depth that collection is given is always enough, cycles or
not, so there is a pass (`Scope.exists_collects`), and there is no second one
(`Scope.Collects.unique`). What passes do is then proved by induction on the rules, without a
depth. The first such fact is here too: a pass collects nothing that included steps do not reach
(`Scope.Collects.selects`).
-/

set_option autoImplicit false

namespace GraphQL

namespace Scope

variable {scope : Scope} {objectType : Name}

/-! ## 1. What counts -/

/-- Whether the selections under a type condition and directives count for an object type. -/
def counts (scope : Scope) (objectType : Name) (condition : Option Name)
    (directives : List DirectiveUse) : Bool :=
  scope.includes directives && condition.all (scope.applies objectType)

/-- The fragment of a name, if there is one and it counts for an object type. -/
def counted? (scope : Scope) (objectType name : Name) : Option Fragment :=
  (Fragment.find? scope.fragments name).filter fun fragment =>
    scope.counts objectType (some fragment.condition) fragment.directives

theorem counted?_eq_some_iff {name : Name} {fragment : Fragment} :
    scope.counted? objectType name = some fragment ↔
      Fragment.find? scope.fragments name = some fragment ∧
        scope.counts objectType (some fragment.condition) fragment.directives = true :=
  Option.filter_eq_some_iff

theorem counted?_eq_none_iff {name : Name} :
    scope.counted? objectType name = none ↔
      ∀ fragment, Fragment.find? scope.fragments name = some fragment →
        scope.counts objectType (some fragment.condition) fragment.directives = false := by
  simp [counted?, Option.filter_eq_none_iff]

/-! ## 2. Passes -/

/-- One pass over selections: from what had been collected before to what has been collected after
it, and the names of the fragments that are expanded on the way. -/
inductive Collects (scope : Scope) (objectType : Name) :
    List Selection → Collected → List Name → Collected → Prop where
  | nil (found : Collected) : Collects scope objectType [] found [] found
  | field {head : FieldHead} {below rest : List Selection} {found after : Collected}
    {expanded : List Name} (hi : scope.includes head.directives = true)
    (hr : Collects scope objectType rest
      { found with nodes := found.nodes ++ [{ toFieldHead := head, selections := below }] }
      expanded after) :
    Collects scope objectType (.field head below :: rest) found expanded after
  | fieldExcluded {head : FieldHead} {below rest : List Selection} {found after : Collected}
    {expanded : List Name} (hi : scope.includes head.directives = false)
    (hr : Collects scope objectType rest found expanded after) :
    Collects scope objectType (.field head below :: rest) found expanded after
  | inline {condition : Option Name} {directives : List DirectiveUse}
    {inner rest : List Selection} {found middle after : Collected}
    {expanded expanded' : List Name} (hc : scope.counts objectType condition directives = true)
    (hi : Collects scope objectType inner found expanded middle)
    (hr : Collects scope objectType rest middle expanded' after) :
    Collects scope objectType (.inline condition directives inner :: rest) found
      (expanded ++ expanded') after
  | inlineExcluded {condition : Option Name} {directives : List DirectiveUse}
    {inner rest : List Selection} {found after : Collected} {expanded : List Name}
    (hc : scope.counts objectType condition directives = false)
    (hr : Collects scope objectType rest found expanded after) :
    Collects scope objectType (.inline condition directives inner :: rest) found expanded after
  /-- An excluded spread, or one of a name that has been visited, leaves nothing behind. -/
  | passed {name : Name} {directives : List DirectiveUse} {rest : List Selection}
    {found after : Collected} {expanded : List Name}
    (hp : name ∈ found.visited ∨ scope.includes directives = false)
    (hr : Collects scope objectType rest found expanded after) :
    Collects scope objectType (.spread name directives :: rest) found expanded after
  /-- Any other spread visits its name, also if there is no fragment of the name that counts. -/
  | visited {name : Name} {directives : List DirectiveUse} {rest : List Selection}
    {found after : Collected} {expanded : List Name} (hn : name ∉ found.visited)
    (hi : scope.includes directives = true) (hc : scope.counted? objectType name = none)
    (hr : Collects scope objectType rest { found with visited := name :: found.visited }
      expanded after) :
    Collects scope objectType (.spread name directives :: rest) found expanded after
  | expanded {name : Name} {directives : List DirectiveUse} {fragment : Fragment}
    {rest : List Selection} {found middle after : Collected} {expanded expanded' : List Name}
    (hn : name ∉ found.visited) (hi : scope.includes directives = true)
    (hc : scope.counted? objectType name = some fragment)
    (hf : Collects scope objectType fragment.selections
      { found with visited := name :: found.visited } expanded middle)
    (hr : Collects scope objectType rest middle expanded' after) :
    Collects scope objectType (.spread name directives :: rest) found
      (name :: (expanded ++ expanded')) after

namespace Collects

variable {selections : List Selection} {found after : Collected} {expanded : List Name}

theorem visited_subset (h : scope.Collects objectType selections found expanded after) :
    found.visited ⊆ after.visited := by
  induction h with
  | nil => exact List.Subset.refl _
  | field _ _ ih => exact ih
  | fieldExcluded _ _ ih => exact ih
  | inline _ _ _ ihi ihr => exact List.Subset.trans ihi ihr
  | inlineExcluded _ _ ih => exact ih
  | passed _ _ ih => exact ih
  | visited _ _ _ _ ih => exact List.subset_of_cons_subset ih
  | expanded _ _ _ _ _ ihf ihr => exact List.Subset.trans (List.subset_of_cons_subset ihf) ihr

/-- From one state there is one pass over selections. -/
theorem unique (h : scope.Collects objectType selections found expanded after)
    {expanded' : List Name} {after' : Collected}
    (h' : scope.Collects objectType selections found expanded' after') :
    expanded' = expanded ∧ after' = after := by
  induction h generalizing expanded' after' with
  | nil =>
    cases h'
    exact ⟨rfl, rfl⟩
  | field hi _ ih =>
    cases h' with
    | field _ hr => exact ih hr
    | fieldExcluded hi' _ => simp [hi] at hi'
  | fieldExcluded hi _ ih =>
    cases h' with
    | field hi' _ => simp [hi] at hi'
    | fieldExcluded _ hr => exact ih hr
  | inline hc _ _ ihi ihr =>
    cases h' with
    | inline _ hi hr =>
      obtain ⟨rfl, rfl⟩ := ihi hi
      obtain ⟨rfl, rfl⟩ := ihr hr
      exact ⟨rfl, rfl⟩
    | inlineExcluded hc' _ => simp [hc] at hc'
  | inlineExcluded hc _ ih =>
    cases h' with
    | inline hc' _ _ => simp [hc] at hc'
    | inlineExcluded _ hr => exact ih hr
  | passed hp _ ih =>
    cases h' with
    | passed _ hr => exact ih hr
    | visited hn hi _ _ => simp [hn, hi] at hp
    | expanded hn hi _ _ _ => simp [hn, hi] at hp
  | visited hn hi hc _ ih =>
    cases h' with
    | passed hp _ => simp [hn, hi] at hp
    | visited _ _ _ hr => exact ih hr
    | expanded _ _ hc' _ _ => simp [hc] at hc'
  | expanded hn hi hc _ _ ihf ihr =>
    cases h' with
    | passed hp _ => simp [hn, hi] at hp
    | visited _ _ hc' _ => simp [hc] at hc'
    | expanded _ _ hc' hf hr =>
      obtain rfl := Option.some.inj (hc.symm.trans hc')
      obtain ⟨rfl, rfl⟩ := ihf hf
      obtain ⟨rfl, rfl⟩ := ihr hr
      exact ⟨rfl, rfl⟩

end Collects

/-! ## 3. The depth of a collection is enough -/

/-- With as much depth as there are fragments left to visit, collecting is a pass: every expansion
visits one of them. -/
theorem exists_collects_collectWithin (depth : Nat) :
    ∀ (selections : List Selection) (found : Collected),
      found.unvisited scope.fragments ≤ depth →
      ∃ expanded, scope.Collects objectType selections found expanded
        (scope.collectWithin objectType depth selections found)
  | [], found, _ => ⟨[], by rw [collectWithin_nil]; exact .nil found⟩
  | .field head below :: rest, found, hd => by
    rw [collectWithin_cons, collectWithin_field]
    split
    · next hi =>
      obtain ⟨expanded, hr⟩ := exists_collects_collectWithin depth rest
        { found with nodes := found.nodes ++ [{ toFieldHead := head, selections := below }] } hd
      exact ⟨expanded, .field hi hr⟩
    · next hi =>
      obtain ⟨expanded, hr⟩ := exists_collects_collectWithin depth rest found hd
      exact ⟨expanded, .fieldExcluded (Bool.eq_false_iff.mpr hi) hr⟩
  | .inline condition directives inner :: rest, found, hd => by
    rw [collectWithin_cons, collectWithin_inline]
    split
    · next hc =>
      obtain ⟨expanded, hi⟩ := exists_collects_collectWithin depth inner found hd
      obtain ⟨expanded', hr⟩ := exists_collects_collectWithin depth rest _
        ((Collected.unvisited_le_of_subset hi.visited_subset).trans hd)
      exact ⟨expanded ++ expanded', .inline hc hi hr⟩
    · next hc =>
      obtain ⟨expanded, hr⟩ := exists_collects_collectWithin depth rest found hd
      exact ⟨expanded, .inlineExcluded (Bool.eq_false_iff.mpr hc) hr⟩
  | .spread name directives :: rest, found, hd => by
    rw [collectWithin_cons]
    cases hp : found.visited.contains name || !scope.includes directives with
    | true =>
      rw [collectWithin_spread_passed hp]
      obtain ⟨expanded, hr⟩ := exists_collects_collectWithin depth rest found hd
      exact ⟨expanded, .passed (by simpa using hp) hr⟩
    | false =>
      obtain ⟨hn, hi⟩ : name ∉ found.visited ∧ scope.includes directives = true := by
        simpa using hp
      have hgrows : found.visited ⊆ name :: found.visited := List.subset_cons_self _ _
      cases hc : scope.counted? objectType name with
      | none =>
        rw [collectWithin_spread_visited hp (counted?_eq_none_iff.mp hc)]
        obtain ⟨expanded, hr⟩ := exists_collects_collectWithin depth rest
          { found with visited := name :: found.visited }
          ((Collected.unvisited_le_of_subset hgrows).trans hd)
        exact ⟨expanded, .visited hn hi hc hr⟩
      | some fragment =>
        obtain ⟨hf, hcounts⟩ := counted?_eq_some_iff.mp hc
        have hname := Fragment.name_of_find? hf
        subst hname
        have hlt := Collected.unvisited_lt (Fragment.mem_of_find? hf) hn
        -- An unvisited fragment is left, so there is depth left.
        have hpos : 0 < depth := by omega
        have hexpand : scope.collectWithin objectType depth [.spread fragment.name directives]
            found = scope.collectWithin objectType (depth - 1) fragment.selections
              { found with visited := fragment.name :: found.visited } := by
          rw [← Nat.sub_add_cancel hpos]
          exact collectWithin_spread_expanded hp hf hcounts
        rw [hexpand]
        obtain ⟨expanded, hb⟩ := exists_collects_collectWithin (depth - 1) fragment.selections
          { found with visited := fragment.name :: found.visited } (by omega)
        have hsub := List.Subset.trans hgrows hb.visited_subset
        obtain ⟨expanded', hr⟩ := exists_collects_collectWithin depth rest _
          ((Collected.unvisited_le_of_subset hsub).trans hd)
        exact ⟨_, .expanded hn hi hc hb hr⟩
termination_by selections => (depth, sizeOf selections)

/-- Collecting from selections is a pass over them that starts with nothing. -/
theorem exists_collects (selections : List Selection) :
    ∃ expanded after, scope.Collects objectType selections {} expanded after ∧
      scope.collect objectType selections = after.nodes := by
  obtain ⟨expanded, h⟩ := exists_collects_collectWithin scope.fragments.length selections {}
    (List.length_filter_le _ _)
  exact ⟨expanded, _, h, rfl⟩

/-- So whatever a pass that starts with nothing has collected is what collection collects. -/
theorem Collects.collect_eq {selections : List Selection} {expanded : List Name}
    {after : Collected} (h : scope.Collects objectType selections {} expanded after) :
    scope.collect objectType selections = after.nodes := by
  obtain ⟨expanded', after', h', heq⟩ := @exists_collects scope objectType selections
  rw [heq, (h.unique h').2]

/-! ## 4. What is reached -/

/-- A field node is reached from selections: it stands there and is included, or it is reached
through an inline fragment that counts, or through an included spread of a fragment that counts. -/
inductive Selects (scope : Scope) (objectType : Name) : List Selection → FieldNode → Prop where
  | field {selections below : List Selection} {head : FieldHead}
    (hm : .field head below ∈ selections) (hi : scope.includes head.directives = true) :
    Selects scope objectType selections { toFieldHead := head, selections := below }
  | inline {selections inner : List Selection} {condition : Option Name}
    {directives : List DirectiveUse} {node : FieldNode}
    (hm : .inline condition directives inner ∈ selections)
    (hc : scope.counts objectType condition directives = true)
    (h : Selects scope objectType inner node) : Selects scope objectType selections node
  | spread {selections : List Selection} {name : Name} {directives : List DirectiveUse}
    {fragment : Fragment} {node : FieldNode} (hm : .spread name directives ∈ selections)
    (hi : scope.includes directives = true)
    (hc : scope.counted? objectType name = some fragment)
    (h : Selects scope objectType fragment.selections node) :
    Selects scope objectType selections node

theorem Selects.mono {selections more : List Selection} {node : FieldNode}
    (h : scope.Selects objectType selections node) (hs : selections ⊆ more) :
    scope.Selects objectType more node := by
  cases h with
  | field hm hi => exact .field (hs hm) hi
  | inline hm hc h => exact .inline (hs hm) hc h
  | spread hm hi hc h => exact .spread (hs hm) hi hc h

/-- Nothing is collected that is not reached. -/
theorem Collects.selects {selections : List Selection} {found after : Collected}
    {expanded : List Name} (h : scope.Collects objectType selections found expanded after) :
    ∀ node ∈ after.nodes, node ∈ found.nodes ∨ scope.Selects objectType selections node := by
  induction h with
  | nil => exact fun _ hm => Or.inl hm
  | field hi _ ih =>
    intro node hm
    rcases ih node hm with hm | hs
    · rcases List.mem_append.mp hm with hm | hm
      · exact Or.inl hm
      · rw [List.mem_singleton] at hm
        subst hm
        exact Or.inr (.field List.mem_cons_self hi)
    · exact Or.inr (hs.mono (List.subset_cons_self _ _))
  | fieldExcluded _ _ ih =>
    exact fun node hm => (ih node hm).imp_right (·.mono (List.subset_cons_self _ _))
  | inline hc _ _ ihi ihr =>
    intro node hm
    rcases ihr node hm with hm | hs
    · exact (ihi node hm).imp_right (.inline List.mem_cons_self hc)
    · exact Or.inr (hs.mono (List.subset_cons_self _ _))
  | inlineExcluded _ _ ih =>
    exact fun node hm => (ih node hm).imp_right (·.mono (List.subset_cons_self _ _))
  | passed _ _ ih =>
    exact fun node hm => (ih node hm).imp_right (·.mono (List.subset_cons_self _ _))
  | visited _ _ _ _ ih =>
    exact fun node hm => (ih node hm).imp_right (·.mono (List.subset_cons_self _ _))
  | expanded _ hi hc _ _ ihf ihr =>
    intro node hm
    rcases ihr node hm with hm | hs
    · exact (ihf node hm).imp_right (.spread List.mem_cons_self hi hc)
    · exact Or.inr (hs.mono (List.subset_cons_self _ _))

end Scope

end GraphQL
