import GraphQL.Proofs.Execution.Grouping
import GraphQL.Proofs.Execution.Passes
import GraphQL.Proofs.Execution.Response

/-!
# `GraphQL/Proofs/Execution/Exactness.lean` — what one collection pass collects

A pass walks through a graph: from selections through inline fragments and spreads to fragments,
which may lead back to each other in circles. It is exact (`Scope.exactly_collectGroups`): it
collects the field nodes that can be reached by included steps, no others, and each in one place
however many ways lead to it.

Nothing is lost although a spread of a visited name is passed over. The invariant speaks of the
state *after* the pass: what selections call for is covered there, and so is what any fragment calls
for whose name was visited on the way (`Scope.Collects.covers`). It does not matter which
fragments are still being expanded when a spread of them is passed over, since the end of the pass
is what they are measured by.

The order is another matter. Without cycles a spread that is passed over stands for nodes that have
been collected by then, so the nodes come in the order in which they first occur when all spreads
are written out, each time (`Scope.Collects.echoes`).
-/

set_option autoImplicit false

namespace GraphQL

/-! ## 1. Field nodes of a text -/

mutual

/-- The field nodes that stand in a selection on its own level, whatever its directives. -/
def Selection.fieldNodes : Selection → List FieldNode
  | .field head selections => [{ toFieldHead := head, selections }]
  | .inline _ _ selections => allFieldNodes selections
  | .spread _ _ => []

/-- The field nodes that stand in several selections on their own level. -/
def Selection.allFieldNodes : List Selection → List FieldNode
  | [] => []
  | selection :: rest => selection.fieldNodes ++ allFieldNodes rest

end

/-- No field node stands in two places of some selections and a table of fragments. -/
structure FieldsOnce (fragments : List Fragment) (selections : List Selection) : Prop where
  /-- Not in the selections, -/
  own : (Selection.allFieldNodes selections).Nodup
  /-- not in one fragment, -/
  within : ∀ {name : Name} {fragment : Fragment},
    Fragment.find? fragments name = some fragment →
      (Selection.allFieldNodes fragment.selections).Nodup
  /-- not in the selections and a fragment, -/
  apart : ∀ {name : Name} {fragment : Fragment},
    Fragment.find? fragments name = some fragment →
      (Selection.allFieldNodes selections).Disjoint (Selection.allFieldNodes fragment.selections)
  /-- and not in two fragments. -/
  between : ∀ {name name' : Name} {fragment fragment' : Fragment},
    Fragment.find? fragments name = some fragment →
      Fragment.find? fragments name' = some fragment' → name ≠ name' →
      (Selection.allFieldNodes fragment.selections).Disjoint
        (Selection.allFieldNodes fragment'.selections)

namespace Scope

variable {scope : Scope} {objectType : Name}

mutual

theorem sublist_gatherOne : ∀ selection : Selection,
    (scope.gatherOne objectType selection).Sublist selection.fieldNodes
  | .field head selections => by
    rw [gatherOne, Selection.fieldNodes]
    split
    · exact List.Sublist.refl _
    · exact List.nil_sublist _
  | .inline condition directives selections => by
    rw [gatherOne, Selection.fieldNodes]
    split
    · exact sublist_gather selections
    · exact List.nil_sublist _
  | .spread _ _ => List.nil_sublist _

/-- The field nodes that count are some of those that stand there. -/
theorem sublist_gather : ∀ selections : List Selection,
    (scope.gather objectType selections).Sublist (Selection.allFieldNodes selections)
  | [] => List.Sublist.refl _
  | selection :: rest => by
    rw [gather, Selection.allFieldNodes]
    exact (sublist_gatherOne selection).append (sublist_gather rest)

end

/-! ## 2. Nothing is lost -/

mutual

/-- The name that a selection spreads on its own level, if it is included. -/
def callsOne (scope : Scope) (objectType : Name) : Selection → List Name
  | .field _ _ => []
  | .inline condition directives selections =>
    if scope.counts objectType condition directives then calls scope objectType selections else []
  | .spread name directives => if scope.includes directives then [name] else []

/-- The names that included spreads call for, on the level of selections. -/
def calls (scope : Scope) (objectType : Name) : List Selection → List Name
  | [] => []
  | selection :: rest => callsOne scope objectType selection ++ calls scope objectType rest

end

theorem calls_eq_flatMap (selections : List Selection) :
    scope.calls objectType selections = selections.flatMap (scope.callsOne objectType) := by
  induction selections with
  | nil => rfl
  | cons selection rest ih => rw [calls, ih, List.flatMap_cons]

theorem gather_eq_flatMap (selections : List Selection) :
    scope.gather objectType selections = selections.flatMap (scope.gatherOne objectType) := by
  induction selections with
  | nil => rfl
  | cons selection rest ih => rw [gather, ih, List.flatMap_cons]

theorem gatherOne_inline (condition : Option Name) (directives : List DirectiveUse)
    (inner : List Selection) :
    scope.gatherOne objectType (.inline condition directives inner) =
      if scope.counts objectType condition directives then scope.gather objectType inner
      else [] := by
  rw [gatherOne]
  rfl

/-- What selections call for on their own level has been collected or visited. -/
structure Covers (scope : Scope) (objectType : Name) (after : Collected)
    (selections : List Selection) : Prop where
  nodes : scope.gather objectType selections ⊆ after.nodes
  visited : scope.calls objectType selections ⊆ after.visited

namespace Covers

variable {after : Collected} {selections : List Selection}

theorem mono (h : scope.Covers objectType after selections) {last : Collected}
    (hn : after.nodes ⊆ last.nodes) (hv : after.visited ⊆ last.visited) :
    scope.Covers objectType last selections :=
  ⟨List.Subset.trans h.nodes hn, List.Subset.trans h.visited hv⟩

theorem cons {selection : Selection} (hn : scope.gatherOne objectType selection ⊆ after.nodes)
    (hv : scope.callsOne objectType selection ⊆ after.visited)
    (h : scope.Covers objectType after selections) :
    scope.Covers objectType after (selection :: selections) := by
  refine ⟨?_, ?_⟩
  · rw [gather]
    exact List.append_subset.mpr ⟨hn, h.nodes⟩
  · rw [calls]
    exact List.append_subset.mpr ⟨hv, h.visited⟩

theorem mem (h : scope.Covers objectType after selections) {selection : Selection}
    (hm : selection ∈ selections) : scope.gatherOne objectType selection ⊆ after.nodes ∧
      scope.callsOne objectType selection ⊆ after.visited := by
  refine ⟨fun node hn => h.nodes ?_, fun name hn => h.visited ?_⟩
  · rw [gather_eq_flatMap]
    exact List.mem_flatMap.mpr ⟨selection, hm, hn⟩
  · rw [calls_eq_flatMap]
    exact List.mem_flatMap.mpr ⟨selection, hm, hn⟩

theorem inline (h : scope.Covers objectType after selections) {condition : Option Name}
    {directives : List DirectiveUse} {inner : List Selection}
    (hm : .inline condition directives inner ∈ selections)
    (hc : scope.counts objectType condition directives = true) :
    scope.Covers objectType after inner := by
  obtain ⟨hn, hv⟩ := h.mem hm
  rw [gatherOne_inline, if_pos hc] at hn
  rw [callsOne, if_pos hc] at hv
  exact ⟨hn, hv⟩

end Covers

namespace Collects

variable {selections : List Selection} {found after : Collected} {expanded : List Name}

theorem nodes_subset (h : scope.Collects objectType selections found expanded after) :
    found.nodes ⊆ after.nodes := by
  induction h with
  | nil => exact List.Subset.refl _
  | field _ _ ih => exact List.Subset.trans (List.subset_append_left _ _) ih
  | fieldExcluded _ _ ih => exact ih
  | inline _ _ _ ihi ihr => exact List.Subset.trans ihi ihr
  | inlineExcluded _ _ ih => exact ih
  | passed _ _ ih => exact ih
  | visited _ _ _ _ ih => exact ih
  | expanded _ _ _ _ _ ihf ihr => exact List.Subset.trans ihf ihr

/-- After a pass, all is covered that the selections call for, and all that those fragments call for
whose names have been visited on the way. -/
theorem covers (h : scope.Collects objectType selections found expanded after) :
    scope.Covers objectType after selections ∧
      ∀ name ∈ after.visited, name ∈ found.visited ∨
        ∀ fragment, scope.counted? objectType name = some fragment →
          scope.Covers objectType after fragment.selections := by
  induction h with
  | nil => exact ⟨⟨List.nil_subset _, List.nil_subset _⟩, fun _ hm => Or.inl hm⟩
  | @field head below rest found after expanded hi hr ih =>
    refine ⟨ih.1.cons ?_ (List.nil_subset _), ih.2⟩
    rw [gatherOne, if_pos hi, List.cons_subset]
    exact ⟨hr.nodes_subset (List.mem_append_right _ (List.mem_singleton_self _)),
      List.nil_subset _⟩
  | fieldExcluded hi _ ih =>
    refine ⟨ih.1.cons ?_ (List.nil_subset _), ih.2⟩
    rw [gatherOne, hi, if_neg Bool.false_ne_true]
    exact List.nil_subset _
  | inline hc _ hr ihi ihr =>
    refine ⟨ihr.1.cons ?_ ?_, fun name hm => ?_⟩
    · rw [gatherOne_inline, if_pos hc]
      exact List.Subset.trans ihi.1.nodes hr.nodes_subset
    · rw [callsOne, if_pos hc]
      exact List.Subset.trans ihi.1.visited hr.visited_subset
    · rcases ihr.2 name hm with hm | hcovers
      · refine (ihi.2 name hm).imp_right fun hcovers fragment hf => ?_
        exact (hcovers fragment hf).mono hr.nodes_subset hr.visited_subset
      · exact Or.inr hcovers
  | inlineExcluded hc _ ih =>
    refine ⟨ih.1.cons ?_ ?_, ih.2⟩
    · rw [gatherOne_inline, hc, if_neg Bool.false_ne_true]
      exact List.nil_subset _
    · rw [callsOne, hc, if_neg Bool.false_ne_true]
      exact List.nil_subset _
  | passed hp hr ih =>
    refine ⟨ih.1.cons (List.nil_subset _) ?_, ih.2⟩
    rw [callsOne]
    split
    · next hi =>
      have hv := hp.resolve_right (by simp [hi])
      exact List.cons_subset.mpr ⟨hr.visited_subset hv, List.nil_subset _⟩
    · exact List.nil_subset _
  | visited hn hi hc hr ih =>
    refine ⟨ih.1.cons (List.nil_subset _) ?_, fun other hm => ?_⟩
    · rw [callsOne, if_pos hi, List.cons_subset]
      exact ⟨hr.visited_subset List.mem_cons_self, List.nil_subset _⟩
    · rcases ih.2 other hm with hm | hcovers
      · rcases List.mem_cons.mp hm with rfl | hm
        · refine Or.inr fun fragment hf => ?_
          rw [hc] at hf
          cases hf
        · exact Or.inl hm
      · exact Or.inr hcovers
  | expanded hn hi hc hf hr ihf ihr =>
    refine ⟨ihr.1.cons (List.nil_subset _) ?_, fun other hm => ?_⟩
    · rw [callsOne, if_pos hi, List.cons_subset]
      exact ⟨hr.visited_subset (hf.visited_subset List.mem_cons_self), List.nil_subset _⟩
    · rcases ihr.2 other hm with hm | hcovers
      · rcases ihf.2 other hm with hm | hcovers
        · rcases List.mem_cons.mp hm with rfl | hm
          · -- The fragment itself: what it calls for was covered when its expansion ended.
            refine Or.inr fun fragment hf' => ?_
            obtain rfl := Option.some.inj (hc.symm.trans hf')
            exact ihf.1.mono hr.nodes_subset hr.visited_subset
          · exact Or.inl hm
        · exact Or.inr fun fragment hf' =>
            (hcovers fragment hf').mono hr.nodes_subset hr.visited_subset
      · exact Or.inr hcovers

end Collects

/-- Where all visited fragments are covered, whatever is reached from something covered has been
collected. -/
theorem Selects.mem_nodes {after : Collected}
    (hv : ∀ name ∈ after.visited, ∀ fragment, scope.counted? objectType name = some fragment →
      scope.Covers objectType after fragment.selections)
    {selections : List Selection} {node : FieldNode}
    (h : scope.Selects objectType selections node)
    (hs : scope.Covers objectType after selections) : node ∈ after.nodes := by
  induction h with
  | field hm hi =>
    have hn := (hs.mem hm).1
    rw [gatherOne, if_pos hi, List.cons_subset] at hn
    exact hn.1
  | inline hm hc _ ih => exact ih (hs.inline hm hc)
  | spread hm hi hc _ ih =>
    have hn := (hs.mem hm).2
    rw [callsOne, if_pos hi, List.cons_subset] at hn
    exact ih (hv _ hn.1 _ hc)

/-! ## 3. Nothing comes twice -/

/-- The field nodes that stand on the level of the fragment of a name, if it counts. -/
def gathered (scope : Scope) (objectType name : Name) : List FieldNode :=
  (scope.counted? objectType name).elim [] fun fragment =>
    scope.gather objectType fragment.selections

theorem gathered_of_counted {name : Name} {fragment : Fragment}
    (hc : scope.counted? objectType name = some fragment) :
    scope.gathered objectType name = scope.gather objectType fragment.selections := by
  rw [gathered, hc]
  rfl

theorem perm_append_append {α : Type} (a x b y : List α) :
    ((a ++ x) ++ (b ++ y)).Perm ((a ++ b) ++ (x ++ y)) := by
  rw [List.append_assoc, List.append_assoc]
  exact List.Perm.append_left a (List.perm_append_comm_assoc x b y)

namespace Collects

variable {selections : List Selection} {found after : Collected} {expanded : List Name}

/-- A pass collects what stands in the selections and in the fragments that it expands, once for
each expansion. -/
theorem exists_perm (h : scope.Collects objectType selections found expanded after) :
    ∃ new, after.nodes = found.nodes ++ new ∧
      new.Perm (scope.gather objectType selections ++
        expanded.flatMap (scope.gathered objectType)) := by
  induction h with
  | nil => exact ⟨[], (List.append_nil _).symm, List.Perm.refl _⟩
  | field hi _ ih =>
    obtain ⟨new, hn, hp⟩ := ih
    refine ⟨_ :: new, by rw [hn, List.append_assoc]; rfl, ?_⟩
    rw [gather, gatherOne, if_pos hi]
    exact hp.cons _
  | fieldExcluded hi _ ih =>
    obtain ⟨new, hn, hp⟩ := ih
    rw [gather, gatherOne, hi, if_neg Bool.false_ne_true]
    exact ⟨new, hn, hp⟩
  | inline hc _ _ ihi ihr =>
    obtain ⟨new, hn, hp⟩ := ihi
    obtain ⟨new', hn', hp'⟩ := ihr
    refine ⟨new ++ new', by rw [hn', hn, List.append_assoc], ?_⟩
    rw [gather, gatherOne_inline, if_pos hc, List.flatMap_append]
    exact (hp.append hp').trans (perm_append_append _ _ _ _)
  | inlineExcluded hc _ ih =>
    obtain ⟨new, hn, hp⟩ := ih
    rw [gather, gatherOne_inline, hc, if_neg Bool.false_ne_true]
    exact ⟨new, hn, hp⟩
  | passed _ _ ih => exact ih
  | visited _ _ _ _ ih => exact ih
  | expanded _ _ hc _ _ ihf ihr =>
    obtain ⟨new, hn, hp⟩ := ihf
    obtain ⟨new', hn', hp'⟩ := ihr
    refine ⟨new ++ new', by rw [hn', hn, List.append_assoc], ?_⟩
    rw [gather, gatherOne, List.nil_append, List.flatMap_cons, List.flatMap_append,
      gathered_of_counted hc]
    -- The text of the fragment goes behind the rest of the selections.
    refine ((hp.append hp').trans (perm_append_append _ _ _ _)).trans ?_
    rw [List.append_assoc]
    exact List.perm_append_comm_assoc _ _ _

/-- No fragment is expanded twice, and none that had been visited before. -/
theorem nodup_expanded (h : scope.Collects objectType selections found expanded after) :
    expanded.Nodup ∧ ∀ name ∈ expanded, name ∉ found.visited ∧ name ∈ after.visited := by
  induction h with
  | nil => exact ⟨List.nodup_nil, List.forall_mem_nil _⟩
  | field _ _ ih => exact ih
  | fieldExcluded _ _ ih => exact ih
  | inline _ hi hr ihi ihr =>
    refine ⟨List.nodup_append.mpr ⟨ihi.1, ihr.1, ?_⟩, fun name hm => ?_⟩
    · rintro name hm _ hm' rfl
      exact (ihr.2 name hm').1 (ihi.2 name hm).2
    · rcases List.mem_append.mp hm with hm | hm
      · exact ⟨(ihi.2 name hm).1, hr.visited_subset (ihi.2 name hm).2⟩
      · exact ⟨fun hv => (ihr.2 name hm).1 (hi.visited_subset hv), (ihr.2 name hm).2⟩
  | inlineExcluded _ _ ih => exact ih
  | passed _ _ ih => exact ih
  | visited _ _ _ _ ih =>
    exact ⟨ih.1, fun name hm =>
      ⟨fun hv => (ih.2 name hm).1 (List.mem_cons_of_mem _ hv), (ih.2 name hm).2⟩⟩
  | @expanded name _ _ _ found middle after expanded expanded' hn _ _ hf hr ihf ihr =>
    -- The name is visited first, so it is not expanded again inside the fragment or after it.
    have hmiddle : name ∈ middle.visited := hf.visited_subset List.mem_cons_self
    have hinside : ∀ other ∈ expanded, other ≠ name ∧ other ∉ found.visited := by
      intro other hm
      have hv := (ihf.2 other hm).1
      rwa [List.mem_cons, not_or] at hv
    have hlater : ∀ other ∈ expanded', other ∉ middle.visited := fun other hm =>
      (ihr.2 other hm).1
    refine ⟨List.nodup_cons.mpr ⟨?_, List.nodup_append.mpr ⟨ihf.1, ihr.1, ?_⟩⟩, ?_⟩
    · intro hm
      rcases List.mem_append.mp hm with hm | hm
      · exact (hinside name hm).1 rfl
      · exact hlater name hm hmiddle
    · rintro other hm _ hm' rfl
      exact hlater other hm' (ihf.2 other hm).2
    · intro other hm
      rcases List.mem_cons.mp hm with rfl | hm
      · exact ⟨hn, hr.visited_subset hmiddle⟩
      rcases List.mem_append.mp hm with hm | hm
      · exact ⟨(hinside other hm).2, hr.visited_subset (ihf.2 other hm).2⟩
      · refine ⟨fun hv => hlater other hm ?_, (ihr.2 other hm).2⟩
        exact hf.visited_subset (List.mem_cons_of_mem _ hv)

/-- Only fragments are expanded that are defined and count. -/
theorem counted_of_mem_expanded (h : scope.Collects objectType selections found expanded after) :
    ∀ name ∈ expanded, ∃ fragment, scope.counted? objectType name = some fragment := by
  induction h with
  | nil => exact List.forall_mem_nil _
  | field _ _ ih => exact ih
  | fieldExcluded _ _ ih => exact ih
  | inline _ _ _ ihi ihr => exact List.forall_mem_append.mpr ⟨ihi, ihr⟩
  | inlineExcluded _ _ ih => exact ih
  | passed _ _ ih => exact ih
  | visited _ _ _ _ ih => exact ih
  | expanded _ _ hc _ _ ihf ihr =>
    exact List.forall_mem_cons.mpr ⟨⟨_, hc⟩, List.forall_mem_append.mpr ⟨ihf, ihr⟩⟩

end Collects

/-- Where no field node stands in two places, nothing stands twice in the selections and in
different fragments that count. -/
theorem nodup_of_fieldsOnce {selections : List Selection}
    (h : FieldsOnce scope.fragments selections) {expanded : List Name} (hn : expanded.Nodup)
    (hc : ∀ name ∈ expanded, ∃ fragment, scope.counted? objectType name = some fragment) :
    (scope.gather objectType selections ++
      expanded.flatMap (scope.gathered objectType)).Nodup := by
  have hfragment : ∀ name ∈ expanded, ∃ fragment,
      Fragment.find? scope.fragments name = some fragment ∧
        (scope.gathered objectType name).Sublist
          (Selection.allFieldNodes fragment.selections) := by
    intro name hm
    obtain ⟨fragment, hcounted⟩ := hc name hm
    refine ⟨fragment, (counted?_eq_some_iff.mp hcounted).1, ?_⟩
    rw [gathered_of_counted hcounted]
    exact sublist_gather _
  have hown : (scope.gather objectType selections).Sublist
      (Selection.allFieldNodes selections) := sublist_gather selections
  refine List.nodup_append'.mpr ⟨hown.nodup h.own, List.nodup_flatMap.mpr ⟨?_, ?_⟩, ?_⟩
  · intro name hm
    obtain ⟨fragment, hf, hs⟩ := hfragment name hm
    exact hs.nodup (h.within hf)
  · refine hn.imp_of_mem fun {name name'} hm hm' hne => ?_
    obtain ⟨fragment, hf, hs⟩ := hfragment name hm
    obtain ⟨fragment', hf', hs'⟩ := hfragment name' hm'
    exact fun node hm hm' => h.between hf hf' hne (hs.subset hm) (hs'.subset hm')
  · intro node hm hm'
    obtain ⟨name, hname, hm'⟩ := List.mem_flatMap.mp hm'
    obtain ⟨fragment, hf, hs⟩ := hfragment name hname
    exact h.apart hf (hown.subset hm) (hs.subset hm')

/-! ## 4. The order -/

/-- The field nodes of selections with every spread written out, each time that it occurs, as far as
they are included. -/
inductive WritesOut (scope : Scope) (objectType : Name) :
    List Selection → List FieldNode → Prop where
  | nil : WritesOut scope objectType [] []
  | field {head : FieldHead} {below rest : List Selection} {text : List FieldNode}
    (hi : scope.includes head.directives = true) (hr : WritesOut scope objectType rest text) :
    WritesOut scope objectType (.field head below :: rest)
      ({ toFieldHead := head, selections := below } :: text)
  | fieldExcluded {head : FieldHead} {below rest : List Selection} {text : List FieldNode}
    (hi : scope.includes head.directives = false) (hr : WritesOut scope objectType rest text) :
    WritesOut scope objectType (.field head below :: rest) text
  | inline {condition : Option Name} {directives : List DirectiveUse}
    {inner rest : List Selection} {text text' : List FieldNode}
    (hc : scope.counts objectType condition directives = true)
    (hi : WritesOut scope objectType inner text) (hr : WritesOut scope objectType rest text') :
    WritesOut scope objectType (.inline condition directives inner :: rest) (text ++ text')
  | inlineExcluded {condition : Option Name} {directives : List DirectiveUse}
    {inner rest : List Selection} {text : List FieldNode}
    (hc : scope.counts objectType condition directives = false)
    (hr : WritesOut scope objectType rest text) :
    WritesOut scope objectType (.inline condition directives inner :: rest) text
  | spread {name : Name} {directives : List DirectiveUse} {fragment : Fragment}
    {rest : List Selection} {text text' : List FieldNode}
    (hi : scope.includes directives = true)
    (hc : scope.counted? objectType name = some fragment)
    (hf : WritesOut scope objectType fragment.selections text)
    (hr : WritesOut scope objectType rest text') :
    WritesOut scope objectType (.spread name directives :: rest) (text ++ text')
  | spreadExcluded {name : Name} {directives : List DirectiveUse} {rest : List Selection}
    {text : List FieldNode}
    (hx : scope.includes directives = false ∨ scope.counted? objectType name = none)
    (hr : WritesOut scope objectType rest text) :
    WritesOut scope objectType (.spread name directives :: rest) text

/-- Without cycles, all spreads can be written out. -/
theorem exists_writesOut (ha : Acyclic scope.fragments) (selections : List Selection) :
    ∃ text, scope.WritesOut objectType selections text := by
  obtain ⟨inlined, h⟩ := ha.exists_inlines selections
  induction h with
  | nil => exact ⟨[], .nil⟩
  | @field head _ _ _ _ _ _ _ ihr =>
    obtain ⟨text, hr⟩ := ihr
    cases hi : scope.includes head.directives with
    | true => exact ⟨_, .field hi hr⟩
    | false => exact ⟨_, .fieldExcluded hi hr⟩
  | @inline condition directives _ _ _ _ _ _ ihi ihr =>
    obtain ⟨text, hi⟩ := ihi
    obtain ⟨text', hr⟩ := ihr
    cases hc : scope.counts objectType condition directives with
    | true => exact ⟨_, .inline hc hi hr⟩
    | false => exact ⟨_, .inlineExcluded hc hr⟩
  | @spread name directives fragment _ _ _ hf _ _ ihi ihr =>
    obtain ⟨text, hb⟩ := ihi
    obtain ⟨text', hr⟩ := ihr
    cases hi : scope.includes directives with
    | false => exact ⟨_, .spreadExcluded (Or.inl hi) hr⟩
    | true =>
      cases hc : scope.counted? objectType name with
      | none => exact ⟨_, .spreadExcluded (Or.inr hc) hr⟩
      | some other =>
        obtain rfl := Option.some.inj (hf.symm.trans (counted?_eq_some_iff.mp hc).1)
        exact ⟨_, .spread hi hc hb hr⟩
  | @unknown name _ _ _ hf _ ihr =>
    obtain ⟨text, hr⟩ := ihr
    refine ⟨_, .spreadExcluded (Or.inr ?_) hr⟩
    rw [counted?, hf]
    rfl

/-- From one state of a pass to a later one, where the new nodes come in the order of a text, which
repeats what has been collected. -/
def Echoed (found after : Collected) (text : List FieldNode) : Prop :=
  ∃ new, after.nodes = found.nodes ++ new ∧ Echoes Eq found.nodes new text

/-- All that the fragment of a name writes out, if it counts, has been collected. -/
def Collected.Has (scope : Scope) (objectType : Name) (found : Collected) (name : Name) : Prop :=
  ∀ fragment text, scope.counted? objectType name = some fragment →
    scope.WritesOut objectType fragment.selections text → text ⊆ found.nodes

section Echoed

variable {found after last : Collected} {text text' : List FieldNode}

theorem Echoed.refl (hs : text ⊆ found.nodes) : Echoed found found text :=
  ⟨[], (List.append_nil _).symm, .of_subset hs⟩

theorem Echoed.trans (h : Echoed found after text) (h' : Echoed after last text') :
    Echoed found last (text ++ text') := by
  obtain ⟨new, hn, he⟩ := h
  obtain ⟨new', hn', he'⟩ := h'
  refine ⟨new ++ new', by rw [hn', hn, List.append_assoc], he.append (he'.mono ?_)⟩
  rw [hn]
  exact List.append_subset.mpr ⟨List.subset_append_right _ _,
    List.Subset.trans he.subset.1 (List.subset_append_left _ _)⟩

theorem Echoed.subset (h : Echoed found after text) : text ⊆ after.nodes := by
  obtain ⟨new, hn, he⟩ := h
  rw [hn]
  intro node hm
  exact List.mem_append.mpr (List.mem_append.mp (he.subset.2 hm)).symm

end Echoed

namespace Collected

/-- The fragments that are visited from one state of a pass to a later one have been collected in
full by then. -/
def Finishes (scope : Scope) (objectType : Name) (found after : Collected) : Prop :=
  ∀ name ∈ after.visited, name ∈ found.visited ∨ after.Has scope objectType name

/-- Of the fragments that have been visited, those that are met in some selections have been
collected in full. -/
def Settles (scope : Scope) (objectType : Name) (found : Collected)
    (selections : List Selection) : Prop :=
  ∀ name ∈ found.visited, ∀ fragment, scope.counted? objectType name = some fragment →
    Reaches scope.fragments selections false fragment → found.Has scope objectType name

variable {found after last : Collected} {name : Name}

theorem Has.mono (h : found.Has scope objectType name) (hs : found.nodes ⊆ after.nodes) :
    after.Has scope objectType name :=
  fun fragment text hc hw => List.Subset.trans (h fragment text hc hw) hs

theorem has_of_not_counted (hc : scope.counted? objectType name = none) :
    found.Has scope objectType name := by
  intro fragment text hc' _
  rw [hc] at hc'
  cases hc'

theorem Finishes.refl : found.Finishes scope objectType found := fun _ => Or.inl

theorem Finishes.trans (h : found.Finishes scope objectType after)
    (h' : after.Finishes scope objectType last) (hs : after.nodes ⊆ last.nodes) :
    found.Finishes scope objectType last := by
  intro name hm
  rcases h' name hm with hm | hhas
  · exact (h name hm).imp_right (·.mono hs)
  · exact Or.inr hhas

/-- A name may be visited at the beginning, if its fragment is there at the end. -/
theorem Finishes.of_visit
    (h : Finishes scope objectType { found with visited := name :: found.visited } after)
    (hhas : after.Has scope objectType name) : found.Finishes scope objectType after := by
  intro other hm
  rcases h other hm with hm | hother
  · rcases List.mem_cons.mp hm with rfl | hm
    · exact Or.inr hhas
    · exact Or.inl hm
  · exact Or.inr hother

namespace Settles

variable {selections rest : List Selection}

/-- What is settled before is settled after, if the fragments in between are finished. -/
theorem step (h : found.Settles scope objectType selections)
    (hf : found.Finishes scope objectType after) (hs : found.nodes ⊆ after.nodes) :
    after.Settles scope objectType selections := by
  intro name hm fragment hc hreach
  rcases hf name hm with hm | hhas
  · exact (h name hm fragment hc hreach).mono hs
  · exact hhas

theorem tail {selection : Selection}
    (h : found.Settles scope objectType (selection :: rest)) :
    found.Settles scope objectType rest :=
  fun name hm fragment hc hreach =>
    h name hm fragment hc (hreach.mono (List.subset_cons_self _ _))

theorem inline {condition : Option Name} {directives : List DirectiveUse}
    (h : found.Settles scope objectType (.inline condition directives selections :: rest)) :
    found.Settles scope objectType selections :=
  fun name hm fragment hc hreach => h name hm fragment hc (.inline List.mem_cons_self hreach)

/-- Inside a fragment that is being expanded, its own name is settled too: without cycles it is not
met there. -/
theorem inside (ha : Acyclic scope.fragments) {directives : List DirectiveUse}
    {fragment : Fragment} (hc : scope.counted? objectType name = some fragment)
    (h : found.Settles scope objectType (.spread name directives :: rest)) :
    Settles scope objectType { found with visited := name :: found.visited }
      fragment.selections := by
  intro other hm met hmet hreach
  have hspread : Reaches scope.fragments (.spread name directives :: rest) false fragment :=
    .spread List.mem_cons_self (counted?_eq_some_iff.mp hc).1
  rcases List.mem_cons.mp hm with rfl | hm
  · obtain rfl := Option.some.inj (hc.symm.trans hmet)
    exact absurd hreach (ha false _)
  · exact h other hm met hmet (hspread.through hreach)

end Settles

end Collected

/-- Without cycles, a pass goes along with the text in which all spreads are written out. Of the
fragments that have been visited, those that are still met in the selections have been collected in
full: a fragment is not, while it is being expanded, but it is not met inside itself. -/
theorem Collects.echoes (ha : Acyclic scope.fragments) {selections : List Selection}
    {found after : Collected} {expanded : List Name}
    (h : scope.Collects objectType selections found expanded after) :
    ∀ {text : List FieldNode}, scope.WritesOut objectType selections text →
      found.Settles scope objectType selections →
      Echoed found after text ∧ found.Finishes scope objectType after := by
  induction h with
  | nil =>
    intro text hw _
    cases hw
    exact ⟨.refl (List.nil_subset _), .refl⟩
  | @field head below rest found after expanded hi hr ih =>
    intro text hw hs
    cases hw with
    | fieldExcluded hi' _ => simp [hi] at hi'
    | field _ hw =>
      have hfirst : Echoed found
          { found with nodes := found.nodes ++ [{ toFieldHead := head, selections := below }] }
          [{ toFieldHead := head, selections := below }] := ⟨_, rfl, .next rfl .nil⟩
      obtain ⟨he, hf⟩ := ih hw (hs.tail.step (fun _ => Or.inl) (List.subset_append_left _ _))
      exact ⟨hfirst.trans he, hf⟩
  | fieldExcluded hi _ ih =>
    intro text hw hs
    cases hw with
    | field hi' _ => simp [hi] at hi'
    | fieldExcluded _ hw => exact ih hw hs.tail
  | inline hc hinner hr ihi ihr =>
    intro text hw hs
    cases hw with
    | inlineExcluded hc' _ => simp [hc] at hc'
    | inline _ hwi hwr =>
      obtain ⟨he, hf⟩ := ihi hwi hs.inline
      obtain ⟨he', hf'⟩ := ihr hwr (hs.tail.step hf hinner.nodes_subset)
      exact ⟨he.trans he', hf.trans hf' hr.nodes_subset⟩
  | inlineExcluded hc _ ih =>
    intro text hw hs
    cases hw with
    | inline hc' _ _ => simp [hc] at hc'
    | inlineExcluded _ hw => exact ih hw hs.tail
  | @passed name directives rest found after expanded hp _ ih =>
    intro text hw hs
    cases hw with
    | spreadExcluded _ hw => exact ih hw hs.tail
    | spread hi hc hwf hwr =>
      -- The name has been visited, and the fragment is met here, so it repeats what there is.
      have hvisited : name ∈ found.visited := hp.resolve_right (by simp [hi])
      have hreach : Reaches scope.fragments (.spread name directives :: rest) false _ :=
        .spread List.mem_cons_self (counted?_eq_some_iff.mp hc).1
      have hsub := hs name hvisited _ hc hreach _ _ hc hwf
      obtain ⟨he, hf⟩ := ih hwr hs.tail
      exact ⟨(Echoed.refl hsub).trans he, hf⟩
  | @visited name _ _ found after _ hn hi hc _ ih =>
    intro text hw hs
    cases hw with
    | spread _ hc' _ _ => simp [hc] at hc'
    | spreadExcluded _ hw =>
      have hvisit : Collected.Finishes scope objectType found
          { found with visited := name :: found.visited } :=
        Collected.Finishes.of_visit .refl (Collected.has_of_not_counted hc)
      obtain ⟨he, hf⟩ := ih hw (hs.tail.step hvisit (List.Subset.refl _))
      exact ⟨he, hf.of_visit (Collected.has_of_not_counted hc)⟩
  | @expanded name directives fragment rest found middle after _ _ hn hi hc hf hr ihf ihr =>
    intro text hw hs
    cases hw with
    | spreadExcluded hx _ => simp [hi, hc] at hx
    | spread _ hc' hwf hwr =>
      obtain rfl := Option.some.inj (hc.symm.trans hc')
      have hinside := hs.inside ha hc
      have hhas : middle.Has scope objectType name := by
        intro other text' hc'' hw'
        obtain rfl := Option.some.inj (hc.symm.trans hc'')
        exact (ihf hw' hinside).1.subset
      obtain ⟨he, hfinishes⟩ := ihf hwf hinside
      have hbody : Echoed found middle _ := he
      have hmiddle := hfinishes.of_visit hhas
      obtain ⟨he', hlater⟩ := ihr hwr (hs.tail.step hmiddle hf.nodes_subset)
      exact ⟨hbody.trans he', hmiddle.trans hlater hr.nodes_subset⟩

/-! ## 5. One pass -/

/-- Groups of field nodes are exactly what selections select on an object type, with some fragments
expanded. -/
structure Exactly (scope : Scope) (objectType : Name) (selections : List Selection)
    (expanded : List Name) (groups : List FieldGroup) : Prop where
  /-- The nodes in the groups are those that are reached from the selections. -/
  mem_iff : ∀ node, (∃ group ∈ groups, node ∈ group.nodes) ↔
    scope.Selects objectType selections node
  /-- Each node is in the group of its own key, -/
  key : ∀ group ∈ groups, ∀ node ∈ group.nodes, node.key = group.key
  /-- there is one group of a key, -/
  nodup_keys : (groups.map FieldGroup.key).Nodup
  /-- and no group is empty. -/
  nonempty : ∀ group ∈ groups, group.nodes ≠ []
  /-- Only fragments are expanded that are defined, -/
  defined : ∀ name ∈ expanded, ∃ fragment, Fragment.find? scope.fragments name = some fragment
  /-- and each of them once. -/
  nodup_expanded : expanded.Nodup
  /-- Every place in the selections and in an expanded fragment that counts is there once; -/
  places : (groups.flatMap FieldGroup.nodes).Perm
    (scope.gather objectType selections ++ expanded.flatMap (scope.gathered objectType))
  /-- so is every node, if none stands in two places. -/
  once : FieldsOnce scope.fragments selections → (groups.flatMap FieldGroup.nodes).Nodup
  /-- Without cycles, all spreads can be written out, and then keys and nodes come in the order in
  which they first occur in what is written. -/
  order : Acyclic scope.fragments →
    (∃ text, scope.WritesOut objectType selections text) ∧
      ∀ text, scope.WritesOut objectType selections text →
        groups.map FieldGroup.key = (text.map (·.key)).eraseDups ∧
          ∀ group ∈ groups, Echoes Eq [] group.nodes (text.filter (·.key = group.key))

/-- What a pass collects, grouped by keys, is exactly what the selections select. -/
theorem Collects.exactly {selections : List Selection} {expanded : List Name} {after : Collected}
    (h : scope.Collects objectType selections {} expanded after) :
    scope.Exactly objectType selections expanded (FieldGroup.ofNodes after.nodes) := by
  have hperm := FieldGroup.perm_ofNodes after.nodes
  have hplaces : ((FieldGroup.ofNodes after.nodes).flatMap FieldGroup.nodes).Perm
      (scope.gather objectType selections ++
        expanded.flatMap (scope.gathered objectType)) := by
    obtain ⟨new, hn, hp⟩ := h.exists_perm
    rw [hn] at hperm ⊢
    exact hperm.trans hp
  have hcounted := h.counted_of_mem_expanded
  refine
    { mem_iff := fun node => ?_
      key := fun group hg node hm => ?_
      nodup_keys := FieldGroup.nodup_keys_ofNodes after.nodes
      nonempty := fun group _ => List.cons_ne_nil _ _
      defined := fun name hm => ?_
      nodup_expanded := h.nodup_expanded.1
      places := hplaces
      once := fun hf => ?_
      order := fun ha => ⟨exists_writesOut ha selections, fun text hw => ?_⟩ }
  · have hmem : (∃ group ∈ FieldGroup.ofNodes after.nodes, node ∈ group.nodes) ↔
        node ∈ after.nodes := by
      rw [← hperm.mem_iff, List.mem_flatMap]
    rw [hmem]
    refine ⟨fun hm => (h.selects node hm).resolve_left List.not_mem_nil, fun hs => ?_⟩
    -- Nothing had been visited before, so every name has been visited on the way.
    exact hs.mem_nodes (fun name hm => (h.covers.2 name hm).resolve_left List.not_mem_nil)
      h.covers.1
  · rw [FieldGroup.nodes_of_mem_ofNodes hg] at hm
    exact of_decide_eq_true (List.mem_filter.mp hm).2
  · obtain ⟨fragment, hc⟩ := hcounted name hm
    exact ⟨fragment, (counted?_eq_some_iff.mp hc).1⟩
  · exact hplaces.nodup_iff.mpr (nodup_of_fieldsOnce hf h.nodup_expanded.1 hcounted)
  · obtain ⟨new, hn, he⟩ := (h.echoes ha hw fun _ hm => absurd hm List.not_mem_nil).1
    rw [List.nil_append] at hn
    rw [hn]
    refine ⟨?_, fun group hg => ?_⟩
    · rw [FieldGroup.keys_ofNodes]
      have hkeys : Echoes Eq [] (new.map (·.key)) (text.map (·.key)) :=
        he.map fun _ _ hab => congrArg _ hab
      exact hkeys.eraseDups_eq
    · rw [FieldGroup.nodes_of_mem_ofNodes hg]
      exact he.filter fun _ _ hab => by rw [hab]

/-- For every schema, object type, table of fragments and selections, a collection pass ends, in one
way, and the groups of field nodes that are collected are exactly what the selections select. -/
theorem exactly_collectGroups (scope : Scope) (objectType : Name) (selections : List Selection) :
    ∃ expanded after, scope.Collects objectType selections {} expanded after ∧
      (∀ expanded' after', scope.Collects objectType selections {} expanded' after' →
        expanded' = expanded ∧ after' = after) ∧
      scope.collectGroups objectType selections = FieldGroup.ofNodes after.nodes ∧
      scope.Exactly objectType selections expanded
        (scope.collectGroups objectType selections) := by
  obtain ⟨expanded, after, h, heq⟩ := @exists_collects scope objectType selections
  have hgroups : scope.collectGroups objectType selections = FieldGroup.ofNodes after.nodes := by
    rw [collectGroups, heq]
  refine ⟨expanded, after, h, fun _ _ h' => h.unique h', hgroups, ?_⟩
  rw [hgroups]
  exact h.exactly

end Scope

/-! ## 6. Selections to look at -/

namespace Sample

/-- Two fragments that spread each other, and one of them itself. -/
def ring : List Fragment :=
  [{ name := "Here", condition := "Query", directives := []
     selections := [field (some "here") "name" [], .spread "There" []] },
   { name := "There", condition := "Query", directives := []
     selections := [field (some "there") "name" [], .spread "Here" [], .spread "There" []] }]

def ringSelections : List Selection :=
  [.spread "There" [], field none "name" [], .spread "Here" [], .spread "Nowhere" []]

def ringScope : Scope where
  schema := schema
  fragments := ring
  variableValues := []

theorem fieldsOnce_ring : FieldsOnce ring ringSelections where
  own := by simp [ringSelections, field, Selection.allFieldNodes, Selection.fieldNodes]
  within {name fragment} hf := by
    have hm := Fragment.mem_of_find? hf
    simp only [ring, List.mem_cons, List.not_mem_nil, or_false] at hm
    rcases hm with rfl | rfl <;>
      simp [field, Selection.allFieldNodes, Selection.fieldNodes]
  apart {name fragment} hf := by
    have hm := Fragment.mem_of_find? hf
    simp only [ring, List.mem_cons, List.not_mem_nil, or_false] at hm
    rcases hm with rfl | rfl <;>
      simp [ringSelections, field, Selection.allFieldNodes, Selection.fieldNodes]
  between {name name' fragment fragment'} hf hf' hne := by
    have hm := Fragment.mem_of_find? hf
    have hm' := Fragment.mem_of_find? hf'
    have hn := Fragment.name_of_find? hf
    have hn' := Fragment.name_of_find? hf'
    simp only [ring, List.mem_cons, List.not_mem_nil, or_false] at hm hm'
    rcases hm with rfl | rfl <;> rcases hm' with rfl | rfl
    · exact absurd (hn.symm.trans hn') hne
    · simp [field, Selection.allFieldNodes, Selection.fieldNodes]
    · simp [field, Selection.allFieldNodes, Selection.fieldNodes]
    · exact absurd (hn.symm.trans hn') hne

end Sample

theorem Scope.exactly_collectGroups_sample : FieldsOnce Sample.ring Sample.ringSelections ∧
    ((Sample.ringScope.collectGroups "Query" Sample.ringSelections).flatMap
      FieldGroup.nodes).Nodup := by
  obtain ⟨_, _, _, _, _, hexactly⟩ :=
    exactly_collectGroups Sample.ringScope "Query" Sample.ringSelections
  exact ⟨Sample.fieldsOnce_ring, hexactly.once Sample.fieldsOnce_ring⟩

end GraphQL
