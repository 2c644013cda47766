import GraphQL.Execution.Collection
import GraphQL.Proofs.Document.Inlining
import GraphQL.Proofs.Execution.Echoes

/-!
# `GraphQL/Proofs/Execution/Expansion.lean` — collecting, and collecting from the written-out text

Collection expands a fragment once. Written out, a document has the selections of the fragment at
every spread of it, so the same field nodes come in again and again. What is collected from the two
is the same but for these repetitions (`Scope.collectWithin_expands`), and that is all this file is
about: one object type and one level.

The proof is one induction along the writing out. Its invariant is that visited fragments are
*complete*: all that they stand for has been seen. A fragment is visited while it is being expanded
and not complete then, but without cycles it is not met there again, so the invariant is asked only
of fragments that are still met (`Scope.Settled`). That the depth of a collection is enough needs no
acyclicity: every expansion visits one fragment more.
-/

set_option autoImplicit false

namespace GraphQL

/-! ## 1. Collection, selection by selection -/

namespace Scope

variable {scope : Scope} {objectType : Name} {depth : Nat} {found : Collected}

@[simp] theorem collectWithin_nil : scope.collectWithin objectType depth [] found = found := by
  cases depth <;> rfl

theorem collectWithin_cons (selection : Selection) (rest : List Selection) :
    scope.collectWithin objectType depth (selection :: rest) found =
      scope.collectWithin objectType depth rest
        (scope.collectWithin objectType depth [selection] found) := by
  cases depth <;> rfl

theorem collectWithin_append (first second : List Selection) :
    scope.collectWithin objectType depth (first ++ second) found =
      scope.collectWithin objectType depth second
        (scope.collectWithin objectType depth first found) := by
  induction first generalizing found with
  | nil => rw [List.nil_append, collectWithin_nil]
  | cons selection rest ih =>
    rw [List.cons_append, collectWithin_cons, ih, ← collectWithin_cons]

theorem collectWithin_field (head : FieldHead) (below : List Selection) :
    scope.collectWithin objectType depth [.field head below] found =
      if scope.includes head.directives then
        { found with nodes := found.nodes ++ [{ toFieldHead := head, selections := below }] }
      else found := by
  cases depth <;> rfl

theorem collectWithin_inline (condition : Option Name) (directives : List DirectiveUse)
    (inner : List Selection) :
    scope.collectWithin objectType depth [.inline condition directives inner] found =
      if scope.includes directives && condition.all (scope.applies objectType) then
        scope.collectWithin objectType depth inner found
      else found := by
  cases depth <;> rfl

/-- A spread that is excluded, or whose name has been visited, is passed over. -/
theorem collectWithin_spread_passed {name : Name} {directives : List DirectiveUse}
    (h : (found.visited.contains name || !scope.includes directives) = true) :
    scope.collectWithin objectType depth [.spread name directives] found = found := by
  cases depth <;> simp only [collectWithin, collectAll, collectOne, h, if_true]

/-- Any other spread of an unknown name, or of a fragment that does not count, is visited. -/
theorem collectWithin_spread_visited {name : Name} {directives : List DirectiveUse}
    (h : (found.visited.contains name || !scope.includes directives) = false)
    (hf : ∀ fragment, Fragment.find? scope.fragments name = some fragment →
      (scope.includes fragment.directives && scope.applies objectType fragment.condition) =
        false) :
    scope.collectWithin objectType depth [.spread name directives] found =
      { found with visited := name :: found.visited } := by
  cases hs : Fragment.find? scope.fragments name with
  | none =>
    cases depth <;>
      simp only [collectWithin, collectAll, collectOne, h, hs, Bool.false_eq_true, if_false]
  | some fragment =>
    have hc := hf fragment hs
    cases depth <;>
      simp only [collectWithin, collectAll, collectOne, h, hs, hc, Bool.false_eq_true, if_false]

/-- Any other spread is expanded, one level further in. -/
theorem collectWithin_spread_expanded {name : Name} {directives : List DirectiveUse}
    {fragment : Fragment}
    (h : (found.visited.contains name || !scope.includes directives) = false)
    (hf : Fragment.find? scope.fragments name = some fragment)
    (hc : (scope.includes fragment.directives && scope.applies objectType fragment.condition) =
      true) :
    scope.collectWithin objectType (depth + 1) [.spread name directives] found =
      scope.collectWithin objectType depth fragment.selections
        { found with visited := name :: found.visited } := by
  rw [collectWithin, collectAll, collectAll, collectOne]
  simp only [h, hf, hc, Bool.false_eq_true, if_false, if_true]

/-! ## 2. The field nodes of a text without spreads -/

mutual

/-- The field nodes that an included selection stands for, spreads apart. -/
def gatherOne (scope : Scope) (objectType : Name) : Selection → List FieldNode
  | .field head selections =>
    if scope.includes head.directives then [{ toFieldHead := head, selections }] else []
  | .inline condition directives selections =>
    if scope.includes directives && condition.all (scope.applies objectType) then
      gather scope objectType selections
    else []
  | .spread _ _ => []

/-- The field nodes that selections stand for, spreads apart. -/
def gather (scope : Scope) (objectType : Name) : List Selection → List FieldNode
  | [] => []
  | selection :: rest => gatherOne scope objectType selection ++ gather scope objectType rest

end

theorem gather_append (first second : List Selection) :
    scope.gather objectType (first ++ second) =
      scope.gather objectType first ++ scope.gather objectType second := by
  induction first with
  | nil => rfl
  | cons selection rest ih => rw [List.cons_append, gather, gather, ih, List.append_assoc]

/-- Collecting from selections adds the nodes that they stand for. -/
def Gathers (scope : Scope) (objectType : Name) (selections : List Selection) : Prop :=
  ∀ depth found, scope.collectWithin objectType depth selections found =
    { found with nodes := found.nodes ++ scope.gather objectType selections }

theorem Gathers.append {first second : List Selection} (h : scope.Gathers objectType first)
    (h' : scope.Gathers objectType second) : scope.Gathers objectType (first ++ second) := by
  intro depth found
  rw [collectWithin_append, h, h', gather_append, List.append_assoc]

theorem Gathers.inline {inner : List Selection} (h : scope.Gathers objectType inner)
    (condition : Option Name) (directives : List DirectiveUse) :
    scope.Gathers objectType [.inline condition directives inner] := by
  intro depth found
  rw [collectWithin_inline, gather, gather, gatherOne, List.append_nil]
  split
  · exact h depth found
  · rw [List.append_nil]

/-- There is no spread in what is written out. -/
theorem gathers_of_inlines {fragments : List Fragment} {selections inlined : List Selection}
    (h : Inlines fragments selections inlined) : scope.Gathers objectType inlined := by
  induction h with
  | nil =>
    intro depth found
    rw [collectWithin_nil, gather, List.append_nil]
  | @field head below below' rest rest' _ _ _ ihr =>
    rw [← List.singleton_append]
    refine Gathers.append ?_ ihr
    intro depth found
    rw [collectWithin_field, gather, gather, gatherOne, List.append_nil]
    split
    · rfl
    · rw [List.append_nil]
  | inline _ _ ihi ihr =>
    rw [← List.singleton_append]
    exact (ihi.inline _ _).append ihr
  | spread _ _ _ ihi ihr =>
    rw [← List.singleton_append]
    exact ((ihi.inline _ _).inline _ _).append ihr
  | unknown _ _ ihr => exact ihr

/-! ## 3. How much depth is enough -/

/-- How many fragments have not been visited. -/
def Collected.unvisited (fragments : List Fragment) (found : Collected) : Nat :=
  (fragments.filter fun fragment => !found.visited.contains fragment.name).length

theorem Collected.unvisited_le_of_subset {fragments : List Fragment} {found after : Collected}
    (h : found.visited ⊆ after.visited) :
    after.unvisited fragments ≤ found.unvisited fragments := by
  unfold unvisited
  rw [← List.countP_eq_length_filter, ← List.countP_eq_length_filter]
  apply List.countP_mono_left
  intro fragment _ ha
  simp only [Bool.not_eq_true', List.contains_eq_mem, decide_eq_false_iff_not] at ha ⊢
  exact fun hm => ha (h hm)

/-- Visiting a fragment leaves fewer that have not been visited. -/
theorem Collected.unvisited_lt {fragments : List Fragment} {found : Collected}
    {fragment : Fragment} (hm : fragment ∈ fragments) (hn : fragment.name ∉ found.visited) :
    { found with visited := fragment.name :: found.visited }.unvisited fragments <
      found.unvisited fragments := by
  have hsplit : (fragments.filter fun other =>
      !(fragment.name :: found.visited).contains other.name) =
      (fragments.filter fun other => !found.visited.contains other.name).filter
        fun other => !other.name == fragment.name := by
    rw [List.filter_filter]
    refine List.filter_congr fun other _ => ?_
    rw [List.contains_cons, Bool.not_or]
  show (fragments.filter fun other =>
    !(fragment.name :: found.visited).contains other.name).length < _
  rw [hsplit]
  refine List.length_filter_lt_length_iff_exists.mpr ⟨fragment, ?_, by simp⟩
  exact List.mem_filter.mpr ⟨hm, by simpa using hn⟩

/-! ## 4. Expanding once is enough -/

/-- All that the fragment of a name stands for, if it counts at all, has been seen. -/
def Complete (scope : Scope) (objectType : Name) (name : Name) (seen : List FieldNode) : Prop :=
  ∀ fragment inner, Fragment.find? scope.fragments name = some fragment →
    Inlines scope.fragments fragment.selections inner →
    (scope.includes fragment.directives && scope.applies objectType fragment.condition) = true →
    scope.gather objectType inner ⊆ seen

theorem Complete.mono {name : Name} {seen more : List FieldNode}
    (h : scope.Complete objectType name seen) (hs : seen ⊆ more) :
    scope.Complete objectType name more :=
  fun fragment inner hf hi hc => List.Subset.trans (h fragment inner hf hi hc) hs

/-- Of the fragments that have been visited, those that are met in some selections are complete. -/
def Settled (scope : Scope) (objectType : Name) (found : Collected) (selections : List Selection)
    (seen : List FieldNode) : Prop :=
  ∀ name ∈ found.visited, (∃ fragment, Fragment.find? scope.fragments name = some fragment ∧
    Reaches scope.fragments selections false fragment) → scope.Complete objectType name seen

/-- From one state of a collection to a later one: the new nodes go along with those of the written
out text, and the fragments that have been visited in between are complete. -/
structure Expands (scope : Scope) (objectType : Name) (found after : Collected)
    (seen gathered : List FieldNode) : Prop where
  nodes : ∃ new, after.nodes = found.nodes ++ new ∧
    Echoes (FieldNode.Inlines scope.fragments) seen new gathered
  visited : found.visited ⊆ after.visited
  complete : ∀ name ∈ after.visited, name ∈ found.visited ∨
    scope.Complete objectType name (gathered ++ seen)

section Expands

variable {after last : Collected} {selections rest : List Selection}
variable {seen gathered gathered' : List FieldNode}

theorem Settled.mono (h : scope.Settled objectType found selections seen)
    (hr : ∀ fragment, Reaches scope.fragments rest false fragment →
      Reaches scope.fragments selections false fragment) :
    scope.Settled objectType found rest seen := by
  rintro name hm ⟨fragment, hf, hreach⟩
  exact h name hm ⟨fragment, hf, hr fragment hreach⟩

/-- What is settled before is settled after, with what has been seen meanwhile. -/
theorem Settled.step (h : scope.Settled objectType found selections seen)
    (he : scope.Expands objectType found after seen gathered) :
    scope.Settled objectType after selections (gathered ++ seen) := by
  intro name hm hr
  rcases he.complete name hm with hf | hc
  · exact (h name hf hr).mono (List.subset_append_right _ _)
  · exact hc

theorem Expands.refl (found : Collected) (hs : gathered ⊆ seen) :
    scope.Expands objectType found found seen gathered where
  nodes := ⟨[], (List.append_nil _).symm, .of_subset hs⟩
  visited := List.Subset.refl _
  complete _ hm := Or.inl hm

theorem Expands.trans (h : scope.Expands objectType found after seen gathered)
    (h' : scope.Expands objectType after last (gathered ++ seen) gathered') :
    scope.Expands objectType found last seen (gathered ++ gathered') := by
  obtain ⟨new, hn, he⟩ := h.nodes
  obtain ⟨new', hn', he'⟩ := h'.nodes
  refine ⟨⟨new ++ new', ?_, he.append he'⟩, List.Subset.trans h.visited h'.visited, ?_⟩
  · rw [hn', hn, List.append_assoc]
  · have hsub : gathered' ++ (gathered ++ seen) ⊆ gathered ++ gathered' ++ seen := by
      intro x hx
      simp only [List.mem_append] at hx ⊢
      tauto
    intro name hm
    rcases h'.complete name hm with ha | hc
    · rcases h.complete name ha with hf | hc
      · exact Or.inl hf
      · refine Or.inr (hc.mono fun x hx => hsub ?_)
        exact List.mem_append_right _ hx
    · exact Or.inr (hc.mono hsub)

/-- A visited name may be counted in between, if it is complete in the end. -/
theorem Expands.of_visit {name : Name} (h : scope.Expands objectType
      { found with visited := name :: found.visited } after seen gathered)
    (hc : scope.Complete objectType name (gathered ++ seen)) :
    scope.Expands objectType found after seen gathered := by
  refine ⟨h.nodes, fun x hx => h.visited (List.mem_cons_of_mem _ hx), fun other hm => ?_⟩
  rcases h.complete other hm with hv | ho
  · rcases List.mem_cons.mp hv with rfl | hv
    · exact Or.inr hc
    · exact Or.inl hv
  · exact Or.inr ho

/-- A name that stands for nothing that counts is complete at once. -/
theorem complete_of_excluded {name : Name}
    (h : ∀ fragment, Fragment.find? scope.fragments name = some fragment →
      (scope.includes fragment.directives && scope.applies objectType fragment.condition) =
        false) : scope.Complete objectType name seen := by
  intro fragment inner hf _ hc
  rw [h fragment hf] at hc
  cases hc

end Expands

theorem gatherOne_spread (directives directives' : List DirectiveUse) (condition : Name)
    (inner : List Selection) :
    scope.gatherOne objectType
        (.inline none directives [.inline (some condition) directives' inner]) =
      if scope.includes directives then
          if scope.includes directives' && scope.applies objectType condition then
            scope.gather objectType inner
          else []
        else [] := by
  rw [gatherOne, gather, gather, gatherOne, List.append_nil, Option.all_none, Option.all_some,
    Bool.and_true]

/-- A spread of a name that stands for nothing that counts: at most it is marked as visited. -/
theorem expands_excluded {name : Name} (directives : List DirectiveUse) {seen : List FieldNode}
    (hx : ∀ fragment, Fragment.find? scope.fragments name = some fragment →
      (scope.includes fragment.directives && scope.applies objectType fragment.condition) =
        false) :
    scope.Expands objectType found
      (scope.collectWithin objectType depth [.spread name directives] found) seen [] := by
  cases hp : found.visited.contains name || !scope.includes directives with
  | true =>
    rw [collectWithin_spread_passed hp]
    exact .refl found (List.nil_subset _)
  | false =>
    rw [collectWithin_spread_visited hp hx]
    exact (Expands.refl _ (List.nil_subset _)).of_visit (complete_of_excluded hx)

/-- One spread: it counts for nothing, or it is passed over and all that it stands for has been
seen, or it is visited and then complete. -/
theorem expands_spread (ha : Acyclic scope.fragments) {name : Name}
    {directives : List DirectiveUse} {fragment : Fragment} {inner selections : List Selection}
    (hf : Fragment.find? scope.fragments name = some fragment)
    (hi : Inlines scope.fragments fragment.selections inner)
    (ih : ∀ {depth found seen}, found.unvisited scope.fragments ≤ depth →
      scope.Settled objectType found fragment.selections seen →
      scope.Expands objectType found
        (scope.collectWithin objectType depth fragment.selections found) seen
        (scope.gather objectType inner))
    (hm : .spread name directives ∈ selections) {seen : List FieldNode}
    (hd : found.unvisited scope.fragments ≤ depth)
    (hs : scope.Settled objectType found selections seen) :
    scope.Expands objectType found
      (scope.collectWithin objectType depth [.spread name directives] found) seen
      (scope.gatherOne objectType
        (.inline none directives
          [.inline (some fragment.condition) fragment.directives inner])) := by
  rw [gatherOne_spread]
  have hreach : Reaches scope.fragments selections false fragment := .spread hm hf
  have hone : ∀ other, Fragment.find? scope.fragments name = some other → other = fragment := by
    intro other ho
    exact Option.some.inj (ho.symm.trans hf)
  cases hc : scope.includes fragment.directives &&
      scope.applies objectType fragment.condition with
  | false =>
    rw [if_neg Bool.false_ne_true, ite_self]
    apply expands_excluded
    intro other ho
    rw [hone other ho, hc]
  | true =>
    rw [if_pos rfl]
    cases hp : found.visited.contains name || !scope.includes directives with
    | true =>
      rw [collectWithin_spread_passed hp]
      apply Expands.refl
      split
      · next hinc =>
        -- The spread is included, so the name has been visited, and here that means complete.
        rw [hinc, Bool.not_true, Bool.or_false, List.contains_iff_mem] at hp
        exact hs name hp ⟨fragment, hf, hreach⟩ fragment inner hf hi hc
      · exact List.nil_subset _
    | false =>
      have hparts := hp
      rw [Bool.or_eq_false_iff, Bool.not_eq_false'] at hparts
      obtain ⟨hnew, hinc⟩ := hparts
      have hname := Fragment.name_of_find? hf
      subst hname
      have hlt : ({ found with visited := fragment.name :: found.visited } : Collected).unvisited
          scope.fragments < found.unvisited scope.fragments :=
        Collected.unvisited_lt (Fragment.mem_of_find? hf) (by simpa using hnew)
      obtain ⟨depth, rfl⟩ : ∃ n, depth = n + 1 := ⟨depth - 1, by omega⟩
      rw [collectWithin_spread_expanded hp hf hc, if_pos hinc]
      have hsettled : scope.Settled objectType
          { found with visited := fragment.name :: found.visited } fragment.selections seen := by
        rintro other ho ⟨met, hmet, hr⟩
        rcases List.mem_cons.mp ho with rfl | ho
        · -- The fragment would get back to itself.
          rw [hone met hmet] at hr
          exact absurd hr (ha false fragment)
        · exact hs other ho ⟨met, hmet, hreach.through hr⟩
      refine (ih (by omega) hsettled).of_visit ?_
      intro other inner' ho hi' _
      rw [hone other ho] at hi'
      rw [hi'.unique hi]
      exact List.subset_append_left _ _

theorem Expands.then_collect {after : Collected} {selections rest : List Selection}
    {seen gathered gathered' : List FieldNode}
    (ih : ∀ {depth found seen}, found.unvisited scope.fragments ≤ depth →
      scope.Settled objectType found rest seen →
      scope.Expands objectType found (scope.collectWithin objectType depth rest found) seen
        gathered')
    (h : scope.Expands objectType found after seen gathered)
    (hd : found.unvisited scope.fragments ≤ depth)
    (hs : scope.Settled objectType found selections seen) (hr : rest ⊆ selections) :
    scope.Expands objectType found (scope.collectWithin objectType depth rest after) seen
      (gathered ++ gathered') := by
  have hd' := (Collected.unvisited_le_of_subset h.visited).trans hd
  have hs' := hs.mono fun _ hreach => hreach.mono hr
  exact h.trans (ih hd' (hs'.step h))

/-- Without cycles, collecting goes along with the written out text. -/
theorem collectWithin_expands (ha : Acyclic scope.fragments) {selections inlined : List Selection}
    (hi : Inlines scope.fragments selections inlined) :
    ∀ {depth : Nat} {found : Collected} {seen : List FieldNode},
      found.unvisited scope.fragments ≤ depth → scope.Settled objectType found selections seen →
      scope.Expands objectType found (scope.collectWithin objectType depth selections found) seen
        (scope.gather objectType inlined) := by
  induction hi with
  | nil =>
    intro depth found seen _ _
    rw [collectWithin_nil]
    exact .refl found (List.nil_subset _)
  | field hb _ _ ihr =>
    intro depth found seen hd hs
    rw [collectWithin_cons, collectWithin_field, gather, gatherOne]
    refine .then_collect ihr ?_ hd hs (List.subset_cons_self _ _)
    split
    · exact ⟨⟨_, rfl, .next ⟨rfl, hb⟩ .nil⟩, List.Subset.refl _, fun _ hm => Or.inl hm⟩
    · exact .refl found (List.nil_subset _)
  | inline _ _ ihi ihr =>
    intro depth found seen hd hs
    rw [collectWithin_cons, collectWithin_inline, gather, gatherOne]
    refine .then_collect ihr ?_ hd hs (List.subset_cons_self _ _)
    split
    · exact ihi hd (hs.mono fun _ hr => .inline List.mem_cons_self hr)
    · exact .refl found (List.nil_subset _)
  | spread hf hi _ ihi ihr =>
    intro depth found seen hd hs
    rw [collectWithin_cons, gather]
    have hfirst := expands_spread ha hf hi ihi List.mem_cons_self hd hs
    exact hfirst.then_collect ihr hd hs (List.subset_cons_self _ _)
  | unknown hf _ ihr =>
    intro depth found seen hd hs
    rw [collectWithin_cons]
    refine .then_collect ihr (expands_excluded _ ?_) hd hs (List.subset_cons_self _ _)
    -- An unknown name stands for no fragment at all, so for none that counts.
    intro fragment ho
    rw [hf] at ho
    cases ho

/-! ## 5. Repeated text -/

/-- Runs of selections, one after the other, where some come in again. -/
theorem collectWithin_flatten_expands (ha : Acyclic scope.fragments)
    {seenBlocks blocks blocks' : List (List Selection)}
    (h : Echoes (Inlines scope.fragments) seenBlocks blocks blocks') :
    ∀ {found : Collected} {seen : List FieldNode},
      found.unvisited scope.fragments ≤ depth →
      scope.Settled objectType found blocks.flatten seen →
      (∀ block ∈ seenBlocks, scope.gather objectType block ⊆ seen) →
      scope.Expands objectType found
        (scope.collectWithin objectType depth blocks.flatten found) seen
        (scope.gather objectType blocks'.flatten) := by
  induction h with
  | nil =>
    intro found seen _ _ _
    rw [List.flatten_nil, collectWithin_nil]
    exact .refl found (List.nil_subset _)
  | @next seenBlocks block block' blocks blocks' hi _ ih =>
    intro found seen hd hs hseen
    rw [List.flatten_cons] at hs
    rw [List.flatten_cons, List.flatten_cons, collectWithin_append, gather_append]
    have hfirst := collectWithin_expands ha hi hd
      (hs.mono fun _ hr => hr.mono (List.subset_append_left _ _))
    have hd' := (Collected.unvisited_le_of_subset hfirst.visited).trans hd
    have hs' := (hs.mono fun _ hr => hr.mono (List.subset_append_right _ _)).step hfirst
    refine hfirst.trans (ih hd' hs' (List.forall_mem_cons.mpr ⟨?_, fun other hm => ?_⟩))
    · exact List.subset_append_left _ _
    · exact List.Subset.trans (hseen other hm) (List.subset_append_right _ _)
  | @again seenBlocks block' blocks blocks' hm _ ih =>
    intro found seen hd hs hseen
    rw [List.flatten_cons, gather_append]
    -- Nothing is collected for a run that comes in again, and nothing new is in it.
    have hfirst : scope.Expands objectType found found seen (scope.gather objectType block') :=
      .refl found (hseen block' hm)
    exact hfirst.trans (ih hd (hs.step hfirst)
      fun other ho => List.Subset.trans (hseen other ho) (List.subset_append_right _ _))

end Scope

end GraphQL
