import GraphQL.Proofs.Execution.Rewriting

/-!
# `GraphQL/Proofs/Execution/FieldMerging.lean` — a field that is split in two

A field can be given by several nodes of one response key, and a document in which two of them stand
in one selection set means the same with the second merged into the first
(`Execution.returns_merged`). Execution puts the selections of a group together in the same way, so
on one level little happens: the second node joins the group of the first before or after what is
collected between them (`FieldGroup.add_foldl_of_ne`), unless there is another node of the key. The
name and the arguments of the second node are not looked at.

Below, what is merged are runs of selections and no longer nodes, and the text may hold the same
two nodes again, in a fragment that is spread there. So `FieldPair.Merges` may merge a pair anywhere
in a text, or leave it as it is. What is between the nodes is asked about where an execution comes
to, on the object types that it finds there (`Environment.AllowsMerging`): a node between them may
belong to a fragment that does not apply.
-/

set_option autoImplicit false

namespace GraphQL

/-- Two field nodes, by what stands in front of their selections. The places in it tell the nodes of
a document apart. -/
structure FieldPair where
  first : FieldHead
  second : FieldHead

/-! ## 1. Texts in which a pair is merged -/

namespace FieldPair

variable (pair : FieldPair)

/-- Where both nodes of a pair stand in one selection set, the second can be merged into the first:
its selections follow on those of the first. This may be done anywhere in a text. -/
inductive Merges : List Selection → List Selection → Prop where
  | nil : Merges [] []
  | field {head : FieldHead} {below below' rest rest' : List Selection} (hb : Merges below below')
    (hr : Merges rest rest') : Merges (.field head below :: rest) (.field head below' :: rest')
  | inline {condition : Option Name} {directives : List DirectiveUse}
    {inner inner' rest rest' : List Selection} (hi : Merges inner inner')
    (hr : Merges rest rest') :
    Merges (.inline condition directives inner :: rest)
      (.inline condition directives inner' :: rest')
  | spread {name : Name} {directives : List DirectiveUse} {rest rest' : List Selection}
    (hr : Merges rest rest') :
    Merges (.spread name directives :: rest) (.spread name directives :: rest')
  | merge {below₁ below₁' below₂ below₂' middle middle' rest rest' : List Selection}
    (h₁ : Merges below₁ below₁') (h₂ : Merges below₂ below₂') (hm : Merges middle middle')
    (hr : Merges rest rest') :
    Merges (.field pair.first below₁ :: (middle ++ .field pair.second below₂ :: rest))
      (.field pair.first (below₁' ++ below₂') :: (middle' ++ rest'))

/-- A fragment with a pair merged in its selections. -/
def MergesFragment (fragment fragment' : Fragment) : Prop :=
  ∃ selections, pair.Merges fragment.selections selections ∧
    fragment' = { fragment with selections }

/-- An operation with a pair merged in its selections. -/
def MergesOperation (operation operation' : Operation) : Prop :=
  ∃ selections, pair.Merges operation.selections selections ∧
    operation' = { operation with selections }

/-- A document with a pair merged in its operations and fragments. -/
structure MergesDocument (document document' : Document) : Prop where
  operations : List.Forall₂ pair.MergesOperation document.operations document'.operations
  fragments : List.Forall₂ pair.MergesFragment document.fragments document'.fragments

/-- Field nodes, and what is left of them if a pair is merged. -/
inductive MergesNodes : List FieldNode → List FieldNode → Prop where
  | nil : MergesNodes [] []
  | cons {head : FieldHead} {below below' : List Selection} {rest rest' : List FieldNode}
    (hb : pair.Merges below below') (hr : MergesNodes rest rest') :
    MergesNodes ({ toFieldHead := head, selections := below } :: rest)
      ({ toFieldHead := head, selections := below' } :: rest')
  | merge {below₁ below₁' below₂ below₂' : List Selection}
    {middle middle' rest rest' : List FieldNode} (h₁ : pair.Merges below₁ below₁')
    (h₂ : pair.Merges below₂ below₂') (hm : MergesNodes middle middle')
    (hr : MergesNodes rest rest') :
    MergesNodes
      ({ toFieldHead := pair.first, selections := below₁ } ::
        (middle ++ { toFieldHead := pair.second, selections := below₂ } :: rest))
      ({ toFieldHead := pair.first, selections := below₁' ++ below₂' } :: (middle' ++ rest'))

/-- A group of nodes, and what is left of it if a pair is merged. -/
structure MergesGroup (group group' : FieldGroup) : Prop where
  key : group'.key = group.key
  head : group'.first.toFieldHead = group.first.toFieldHead
  below : pair.Merges group.selections group'.selections

/-- Between the nodes of a pair there is no other node of their key. -/
def Adjacent (nodes : List FieldNode) : Prop :=
  ∀ before below₁ middle below₂ after,
    nodes = before ++ { toFieldHead := pair.first, selections := below₁ } ::
      (middle ++ { toFieldHead := pair.second, selections := below₂ } :: after) →
    ∀ node ∈ middle, node.key ≠ pair.first.key

variable {pair}

theorem Merges.append {selections selections' more more' : List Selection}
    (h : pair.Merges selections selections') (hm : pair.Merges more more') :
    pair.Merges (selections ++ more) (selections' ++ more') := by
  induction h with
  | nil => exact hm
  | field hb _ _ ih => exact .field hb ih
  | inline hi _ _ ih => exact .inline hi ih
  | spread _ ih => exact .spread ih
  | merge h₁ h₂ hmiddle _ _ _ _ ih =>
    simpa only [List.cons_append, List.append_assoc] using Merges.merge h₁ h₂ hmiddle ih

theorem MergesNodes.append {nodes nodes' more more' : List FieldNode}
    (h : pair.MergesNodes nodes nodes') (hm : pair.MergesNodes more more') :
    pair.MergesNodes (nodes ++ more) (nodes' ++ more') := by
  induction h with
  | nil => exact hm
  | cons hb _ ih => exact .cons hb ih
  | merge h₁ h₂ hmiddle _ _ ih =>
    simpa only [List.cons_append, List.append_assoc] using MergesNodes.merge h₁ h₂ hmiddle ih

theorem Adjacent.of_infix {nodes inner : List FieldNode} (h : pair.Adjacent nodes)
    (hi : inner <:+: nodes) : pair.Adjacent inner := by
  obtain ⟨front, back, rfl⟩ := hi
  rintro before below₁ middle below₂ after rfl
  refine h (front ++ before) below₁ middle below₂ (after ++ back) ?_
  simp only [List.append_assoc, List.cons_append]

/-- Where there are no more than two nodes of the key, there is none between those of the pair. -/
theorem adjacent_of_countP_le {nodes : List FieldNode} (hk : pair.second.key = pair.first.key)
    (h : nodes.countP (fun node => node.key = pair.first.key) ≤ 2) : pair.Adjacent nodes := by
  rintro before below₁ middle below₂ after rfl node hm hkey
  have hpos : 0 < middle.countP fun node => node.key = pair.first.key :=
    List.countP_pos_iff.mpr ⟨node, hm, decide_eq_true hkey⟩
  rw [List.countP_append, List.countP_cons_of_pos (by exact decide_eq_true rfl),
    List.countP_append, List.countP_cons_of_pos (by exact decide_eq_true hk)] at h
  omega

end FieldPair

/-! ## 2. Collection -/

namespace FieldPair

variable {pair : FieldPair}

/-- From the same visited fragments, two ways to collect visit the same, and the second finds what
is left of what the first finds. -/
def MergesFrom (pair : FieldPair) (visited : List Name)
    (collect collect' : Scope.Collected → Scope.Collected) : Prop :=
  ∃ new new' visited', pair.MergesNodes new new' ∧ ∀ nodes nodes',
    collect { nodes, visited } = { nodes := nodes ++ new, visited := visited' } ∧
    collect' { nodes := nodes', visited } = { nodes := nodes' ++ new', visited := visited' }

namespace MergesFrom

variable {collect collect' next next' : Scope.Collected → Scope.Collected}

theorem trans (h : ∀ visited, pair.MergesFrom visited collect collect')
    (hn : ∀ visited, pair.MergesFrom visited next next') (visited : List Name) :
    pair.MergesFrom visited (next ∘ collect) (next' ∘ collect') := by
  obtain ⟨new, new', visited₁, hnew, hc⟩ := h visited
  obtain ⟨more, more', visited₂, hmore, hd⟩ := hn visited₁
  refine ⟨new ++ more, new' ++ more', visited₂, hnew.append hmore, fun nodes nodes' => ?_⟩
  rw [Function.comp_apply, Function.comp_apply, (hc nodes nodes').1, (hc nodes nodes').2,
    (hd _ (nodes' ++ new')).1, (hd (nodes ++ new) _).2, List.append_assoc, List.append_assoc]
  exact ⟨rfl, rfl⟩

end MergesFrom

end FieldPair

namespace Scope

variable {scope scope' : Scope} {pair : FieldPair} {objectType : Name}
variable {expand expand' : List Selection → Collected → Collected} {visited : List Name}

theorem collectAll_cons (selection : Selection) (rest : List Selection) :
    scope.collectAll objectType expand (selection :: rest) =
      scope.collectAll objectType expand rest ∘ scope.collectOne objectType expand selection := by
  funext found
  rw [collectAll, Function.comp_apply]

theorem collectAll_append (first second : List Selection) :
    scope.collectAll objectType expand (first ++ second) =
      scope.collectAll objectType expand second ∘ scope.collectAll objectType expand first := by
  induction first with
  | nil =>
    funext found
    rw [Function.comp_apply, List.nil_append, collectAll]
  | cons selection rest ih =>
    rw [List.cons_append, collectAll_cons, collectAll_cons, ih, Function.comp_assoc]

theorem collectOne_field {head : FieldHead} (hi : scope.includes head.directives = true)
    (below : List Selection) (nodes : List FieldNode) :
    scope.collectOne objectType expand (.field head below) { nodes, visited } =
      { nodes := nodes ++ [{ toFieldHead := head, selections := below }], visited } := by
  rw [collectOne, if_pos hi]

section Pass

variable (hs : scope'.schema = scope.schema)
variable (hv : scope'.variableValues = scope.variableValues)
variable (hf : ∀ name, Option.Rel pair.MergesFragment (Fragment.find? scope.fragments name)
  (Fragment.find? scope'.fragments name))
variable (h₁ : scope.includes pair.first.directives = true)
variable (h₂ : scope.includes pair.second.directives = true)
variable (hl : scope'.fragments.length = scope.fragments.length)
variable (he : ∀ selections selections', pair.Merges selections selections' →
  ∀ visited, pair.MergesFrom visited (expand selections) (expand' selections'))

include hs hv

theorem mergesFrom_field {head : FieldHead} {below below' : List Selection}
    (hb : pair.Merges below below') (visited : List Name) :
    pair.MergesFrom visited (scope.collectOne objectType expand (.field head below))
      (scope'.collectOne objectType expand' (.field head below')) := by
  have hi := includes_congr hs hv head.directives
  cases hinc : scope.includes head.directives with
  | true =>
    exact ⟨[{ toFieldHead := head, selections := below }],
      [{ toFieldHead := head, selections := below' }], visited, .cons hb .nil, fun _ _ =>
      ⟨collectOne_field hinc _ _, collectOne_field (hi.trans hinc) _ _⟩⟩
  | false =>
    exact ⟨[], [], visited, .nil, fun _ _ => by simp [collectOne, hi, hinc]⟩

theorem mergesFrom_inline {condition : Option Name} {directives : List DirectiveUse}
    {inner inner' : List Selection}
    (hi : ∀ visited, pair.MergesFrom visited (scope.collectAll objectType expand inner)
      (scope'.collectAll objectType expand' inner')) (visited : List Name) :
    pair.MergesFrom visited
      (scope.collectOne objectType expand (.inline condition directives inner))
      (scope'.collectOne objectType expand' (.inline condition directives inner')) := by
  have ha : scope'.applies objectType = scope.applies objectType :=
    funext (applies_congr hs objectType)
  unfold FieldPair.MergesFrom
  simp only [collectOne, includes_congr hs hv, ha]
  cases scope.includes directives && condition.all (scope.applies objectType) with
  | true => exact hi visited
  | false => exact ⟨[], [], visited, .nil, by simp⟩

include hf

include he in
theorem mergesFrom_spread (name : Name) (directives : List DirectiveUse) (visited : List Name) :
    pair.MergesFrom visited (scope.collectOne objectType expand (.spread name directives))
      (scope'.collectOne objectType expand' (.spread name directives)) := by
  unfold FieldPair.MergesFrom
  simp only [collectOne, includes_congr hs hv, applies_congr hs]
  cases visited.contains name || !scope.includes directives with
  | true => exact ⟨[], [], visited, .nil, by simp⟩
  | false =>
    have hfragment := hf name
    generalize Fragment.find? scope.fragments name = found at hfragment
    generalize Fragment.find? scope'.fragments name = found' at hfragment
    cases hfragment with
    | none => exact ⟨[], [], name :: visited, .nil, by simp⟩
    | @some fragment _ h =>
      obtain ⟨selections, hm, rfl⟩ := h
      dsimp only
      cases scope.includes fragment.directives && scope.applies objectType fragment.condition with
      | true => exact he _ _ hm (name :: visited)
      | false => exact ⟨[], [], name :: visited, .nil, by simp⟩

include h₁ h₂

include he in
/-- A pass over selections leaves the same fragments visited if a pair is merged in them. -/
theorem mergesFrom_collectAll {selections selections' : List Selection}
    (h : pair.Merges selections selections') (visited : List Name) :
    pair.MergesFrom visited (scope.collectAll objectType expand selections)
      (scope'.collectAll objectType expand' selections') := by
  induction h generalizing visited with
  | nil => exact ⟨[], [], visited, .nil, by simp [collectAll]⟩
  | field hb _ _ ih =>
    rw [collectAll_cons, collectAll_cons]
    exact .trans (mergesFrom_field hs hv hb) ih visited
  | inline _ _ ihi ih =>
    rw [collectAll_cons, collectAll_cons]
    exact .trans (mergesFrom_inline hs hv ihi) ih visited
  | @spread name directives _ _ _ ih =>
    rw [collectAll_cons, collectAll_cons]
    exact .trans (mergesFrom_spread hs hv hf he name directives) ih visited
  | merge hb₁ hb₂ _ _ _ _ ihm ih =>
    obtain ⟨middle, middle', visited₁, hmiddle, hc⟩ := ihm visited
    obtain ⟨rest, rest', visited₂, hrest, hd⟩ := ih visited₁
    have h₁' := (includes_congr hs hv pair.first.directives).trans h₁
    refine ⟨_, _, visited₂, .merge hb₁ hb₂ hmiddle hrest, fun nodes nodes' => ?_⟩
    simp only [collectAll_cons, collectAll_append, Function.comp_apply, collectOne_field h₁,
      collectOne_field h₂, collectOne_field h₁', (hc _ nodes').1, (hc nodes _).2,
      (hd _ nodes').1, (hd nodes _).2, List.append_assoc, List.cons_append, List.nil_append,
      and_self]

include hl

/-- What is collected is what is left of what was collected before the pair was merged. -/
theorem mergesNodes_collect {selections selections' : List Selection}
    (h : pair.Merges selections selections') (objectType : Name) :
    pair.MergesNodes (scope.collect objectType selections)
      (scope'.collect objectType selections') := by
  have hwithin : ∀ depth selections selections', pair.Merges selections selections' →
      ∀ visited, pair.MergesFrom visited (scope.collectWithin objectType depth selections)
        (scope'.collectWithin objectType depth selections') := by
    intro depth
    induction depth with
    | zero =>
      exact fun _ _ h => mergesFrom_collectAll hs hv hf h₁ h₂
        (fun _ _ _ visited => ⟨[], [], visited, .nil, by simp⟩) h
    | succ depth ih => exact fun _ _ h => mergesFrom_collectAll hs hv hf h₁ h₂ ih h
  obtain ⟨new, new', visited', hnew, hc⟩ :=
    hwithin scope.fragments.length selections selections' h []
  rw [collect, collect, hl, (hc [] []).1, (hc [] []).2]
  exact hnew

end Pass

end Scope

/-! ## 3. Groups -/

namespace FieldGroup

theorem selections_concat (group : FieldGroup) (node : FieldNode) :
    selections { group with more := group.more ++ [node] } =
      group.selections ++ node.selections := by
  simp [selections, nodes]

/-- A node can join its group before or after a node of another key. -/
theorem add_comm_of_ne {groups : List FieldGroup} {node other : FieldNode}
    (hm : node.key ∈ groups.map key) (hne : other.key ≠ node.key) :
    add (add groups other) node = add (add groups node) other := by
  induction groups with
  | nil => cases hm
  | cons group rest ih =>
    by_cases hnode : group.key = node.key
    · have hother : group.key ≠ other.key := fun he => hne (he.symm.trans hnode)
      simp only [add, if_pos hnode, if_neg hother]
    · have hrest : node.key ∈ rest.map key :=
        (List.mem_cons.mp hm).resolve_left fun he => hnode he.symm
      by_cases hother : group.key = other.key
      · simp only [add, if_pos hother, if_neg hnode]
      · simp only [add, if_neg hother, if_neg hnode, ih hrest]

theorem add_foldl_of_ne {groups : List FieldGroup} {node : FieldNode} {others : List FieldNode}
    (hm : node.key ∈ groups.map key) (hne : ∀ other ∈ others, other.key ≠ node.key) :
    add (others.foldl add groups) node = others.foldl add (add groups node) := by
  induction others generalizing groups with
  | nil => rfl
  | cons other rest ih =>
    rw [List.forall_mem_cons] at hne
    have hkept : node.key ∈ (add groups other).map key := by
      rw [keys_add]
      split
      · exact hm
      · exact List.mem_append_left _ hm
    rw [List.foldl_cons, List.foldl_cons, ih hkept hne.2, add_comm_of_ne hm hne.1]

end FieldGroup

namespace FieldPair

variable {pair : FieldPair} {all all' : List FieldGroup}

theorem MergesGroup.concat {group group' : FieldGroup} (h : pair.MergesGroup group group')
    {node node' : FieldNode} (hn : pair.Merges node.selections node'.selections) :
    pair.MergesGroup { group with more := group.more ++ [node] }
      { group' with more := group'.more ++ [node'] } where
  key := h.key
  head := h.head
  below := by
    rw [FieldGroup.selections_concat, FieldGroup.selections_concat]
    exact h.below.append hn

theorem mergesGroups_add (hg : List.Forall₂ pair.MergesGroup all all') {head : FieldHead}
    {below below' : List Selection} (hb : pair.Merges below below') :
    List.Forall₂ pair.MergesGroup
      (FieldGroup.add all { toFieldHead := head, selections := below })
      (FieldGroup.add all' { toFieldHead := head, selections := below' }) := by
  induction hg with
  | nil =>
    refine .cons ⟨rfl, rfl, ?_⟩ .nil
    simpa [FieldGroup.selections, FieldGroup.nodes] using hb
  | @cons group group' rest rest' hone hrest ih =>
    by_cases hkey : group.key = head.key
    · rw [FieldGroup.add, FieldGroup.add, if_pos hkey, if_pos (hone.key.trans hkey)]
      exact .cons (hone.concat hb) hrest
    · rw [FieldGroup.add, FieldGroup.add, if_neg hkey, if_neg (hone.key.symm ▸ hkey)]
      exact .cons hone ih

/-- A group that gets both nodes of a pair, one after the other, or the one that is left. -/
theorem mergesGroups_add_pair (hk : pair.second.key = pair.first.key)
    (hg : List.Forall₂ pair.MergesGroup all all')
    {below₁ below₁' below₂ below₂' : List Selection} (h₁ : pair.Merges below₁ below₁')
    (h₂ : pair.Merges below₂ below₂') :
    List.Forall₂ pair.MergesGroup
      (FieldGroup.add
        (FieldGroup.add all { toFieldHead := pair.first, selections := below₁ })
        { toFieldHead := pair.second, selections := below₂ })
      (FieldGroup.add all' { toFieldHead := pair.first, selections := below₁' ++ below₂' }) := by
  induction hg with
  | nil =>
    rw [FieldGroup.add, FieldGroup.add, FieldGroup.add, if_pos hk.symm]
    refine .cons ⟨rfl, rfl, ?_⟩ .nil
    simpa [FieldGroup.selections, FieldGroup.nodes] using h₁.append h₂
  | @cons group group' rest rest' hone hrest ih =>
    by_cases hkey : group.key = pair.first.key
    · rw [FieldGroup.add, if_pos hkey, FieldGroup.add, if_pos (hkey.trans hk.symm), FieldGroup.add,
        if_pos (hone.key.trans hkey)]
      refine .cons ⟨hone.key, hone.head, ?_⟩ hrest
      rw [FieldGroup.selections_concat, FieldGroup.selections_concat,
        FieldGroup.selections_concat, List.append_assoc]
      exact hone.below.append (h₁.append h₂)
    · rw [FieldGroup.add, if_neg hkey, FieldGroup.add, if_neg (hk ▸ hkey), FieldGroup.add,
        if_neg (hone.key.symm ▸ hkey)]
      exact .cons hone ih

/-- The groups of nodes of which a pair is merged have the same keys in the same order, and below
them the pair is merged in turn. -/
theorem MergesNodes.foldl_add {nodes nodes' : List FieldNode} (h : pair.MergesNodes nodes nodes')
    (hk : pair.second.key = pair.first.key) (ha : pair.Adjacent nodes)
    (hg : List.Forall₂ pair.MergesGroup all all') :
    List.Forall₂ pair.MergesGroup (nodes.foldl FieldGroup.add all)
      (nodes'.foldl FieldGroup.add all') := by
  induction h generalizing all all' with
  | nil => exact hg
  | cons hb _ ih => exact ih (ha.of_infix (List.infix_cons List.infix_rfl)) (mergesGroups_add hg hb)
  | @merge below₁ _ below₂ _ middle middle' rest rest' h₁ h₂ _ _ ihm ihr =>
    have hmiddle : ∀ node ∈ middle, node.key ≠ pair.second.key := by
      rw [hk]
      exact ha [] below₁ middle below₂ rest rfl
    have hpresent : pair.second.key ∈
        (FieldGroup.add all { toFieldHead := pair.first, selections := below₁ }).map (·.key) := by
      rw [hk, FieldGroup.keys_add]
      split
      · assumption
      · exact List.mem_append_right _ (List.mem_singleton_self _)
    -- The second node joins the group of the first before all that stands between them.
    rw [List.foldl_cons, List.foldl_append, List.foldl_cons, List.foldl_cons, List.foldl_append,
      FieldGroup.add_foldl_of_ne hpresent hmiddle]
    refine ihr (ha.of_infix ?_) (ihm (ha.of_infix ?_) (mergesGroups_add_pair hk hg h₁ h₂))
    · exact ⟨{ toFieldHead := pair.first, selections := below₁ } ::
        (middle ++ [{ toFieldHead := pair.second, selections := below₂ }]), [], by simp⟩
    · exact ⟨[_], _ :: rest, rfl⟩

end FieldPair

/-! ## 4. Executions -/

namespace Environment

variable {σ : Type} {env env' : Environment σ}

/-- From a visit on, the nodes of a pair can be merged: both are included, they have one key, and
wherever both are collected there is no other node of that key between them. -/
structure AllowsMerging (env : Environment σ) (pair : FieldPair) (start : Visit) : Prop where
  first : env.includes pair.first.directives = true
  second : env.includes pair.second.directives = true
  key : pair.second.key = pair.first.key
  adjacent : ∀ visit, Relation.ReflTransGen env.Visits start visit →
    pair.Adjacent (env.collect visit.type.name visit.selections)

/-- For an application that does not look at the text, merging a pair makes no difference along the
visits. -/
theorem SameButText.alikeAlong_merges (h : env.SameButText env')
    (ho : env.application.IgnoresOperation) (hn : env.application.IgnoresNodes) {pair : FieldPair}
    (hf : List.Forall₂ pair.MergesFragment env.fragments env'.fragments) {start : Visit}
    (ha : env.AllowsMerging pair start) :
    env.AlikeAlong env' fun visit selections' =>
      Relation.ReflTransGen env.Visits start visit ∧ pair.Merges visit.selections selections' where
  schema := h.schema
  application := h.application
  groups visit selections' hr := by
    obtain ⟨hvisit, hmerges⟩ := hr
    have hfind : ∀ name, Option.Rel pair.MergesFragment (Fragment.find? env.fragments name)
        (Fragment.find? env'.fragments name) := by
      refine Fragment.find?_of_forall₂ (hf.imp fun fragment fragment' hm => ?_)
      obtain ⟨selections, hs, rfl⟩ := hm
      exact ⟨rfl, selections, hs, rfl⟩
    have hnodes := Scope.mergesNodes_collect h.schema h.variableValues hfind ha.first ha.second
      hf.length_eq.symm hmerges visit.type.name
    refine (hnodes.foldl_add ha.key (ha.adjacent visit hvisit) .nil).imp fun group group' hg => ?_
    refine ⟨hg.key, congrArg FieldHead.location hg.head, congrArg FieldHead.name hg.head,
      fun found _ => ?_, fun next hnext hs => ?_⟩
    · exact h.resolve ho hn (congrArg FieldHead.arguments hg.head) visit.type visit.source found
    · rw [hs]
      exact ⟨hvisit.tail hnext, hg.below⟩

end Environment

namespace Execution

variable {execution : Execution} {schema : Schema} {document document' : Document}
variable {pair : FieldPair} {σ : Type} {application : Application σ}

/-- At every depth, a document in which a pair is merged is executed as the document is. -/
theorem run?_of_merges (hm : pair.MergesDocument document document')
    (ho : application.IgnoresOperation) (hn : application.IgnoresNodes)
    (ha : ∀ prepared, execution.prepare schema document = .ok prepared →
      (execution.environment schema application document prepared).AllowsMerging pair
        (execution.rootVisit prepared)) (depth : Nat) (s : σ) :
    execution.run? depth schema application document' s =
      execution.run? depth schema application document s := by
  have hname : ∀ operation operation', pair.MergesOperation operation operation' →
      operation'.name = operation.name := by
    rintro operation _ ⟨_, _, rfl⟩
    rfl
  rcases Document.operation?_of_forall₂ hname hm.operations execution.operationName with
    ⟨error, he, he'⟩ | ⟨operation, _, hs, hs', selections, hmerges, rfl⟩
  · simp only [run?, prepare_of_operation?_error he, prepare_of_operation?_error he']
  · have hselects := Document.operation?_eq_ok_iff.mp hs
    have hselects' := Document.operation?_eq_ok_iff.mp hs'
    refine run?_of_alikeAlong hselects hselects' rfl rfl (fun prepared hp hsame => ?_) depth s
    subst hsame
    have hbut : (execution.environment schema application document prepared).SameButText
        (execution.environment schema application document'
          { prepared with operation := { prepared.operation with selections } }) :=
      ⟨rfl, rfl, rfl, rfl, rfl⟩
    exact ⟨_, hbut.alikeAlong_merges ho hn hm.fragments (ha prepared hp), .refl, hmerges⟩

/-- A field that is split in two is one field, for an application that does not look at the text.
Where two included field nodes of one key stand in a selection set and no other node of the key is
collected between them, the second can be merged into the first, in an operation or in a fragment:
the response is the same, and so is the state that the application is left in. -/
theorem returns_merged (hacyclic : Acyclic document.fragments)
    (hm : pair.MergesDocument document document') (ho : application.IgnoresOperation)
    (hn : application.IgnoresNodes)
    (ha : ∀ prepared, execution.prepare schema document = .ok prepared →
      (execution.environment schema application document prepared).AllowsMerging pair
        (execution.rootVisit prepared)) (s : σ) :
    ∃ response s', execution.Returns schema application document s response s' ∧
      execution.Returns schema application document' s response s' := by
  obtain ⟨response, s', depth, hr⟩ := exists_returns
    (fun operation _ => hacyclic.wellNested operation.selections) schema application s
  refine ⟨response, s', ⟨depth, hr⟩, depth, ?_⟩
  rw [run?_of_merges hm ho hn ha]
  exact hr

end Execution

/-! ## 5. A document to look at -/

namespace Sample

def selfPair : FieldPair where
  first := {
    location := .start, aliased := none, name := "self", arguments := [], directives := [] }
  second := {
    location := ⟨3, 3⟩, aliased := none, name := "self", arguments := [], directives := [] }

def firstBelow : List Selection :=
  [.spread "Name" []]

def secondBelow : List Selection :=
  [field none "failing" []]

def splitSelections : List Selection :=
  [.field selfPair.first firstBelow, field none "name" [], .field selfPair.second secondBelow]

/-- A field that is given by two nodes, with another field between them. -/
def splitDocument : Document where
  operations := [{ operation with selections := splitSelections }]
  fragments := [nameFragment]

def mergedDocument : Document where
  operations := [{ operation with selections :=
    [.field selfPair.first (firstBelow ++ secondBelow), field none "name" []] }]
  fragments := [nameFragment]

theorem merges_name : selfPair.Merges [field none "name" []] [field none "name" []] :=
  .field .nil .nil

theorem mergesDocument : selfPair.MergesDocument splitDocument mergedDocument where
  operations := .cons ⟨_, .merge (.spread .nil) (.field .nil .nil) merges_name .nil, rfl⟩ .nil
  fragments := .cons ⟨_, merges_name, rfl⟩ .nil

def splitPrepared : Prepared where
  operation := { operation with selections := splitSelections }
  rootType := schema.query
  variableValues := []

def splitEnvironment : Environment Unit :=
  Execution.environment {} schema application splitDocument splitPrepared

def leafNode (name : Name) : FieldNode where
  location := .start
  aliased := none
  name := name
  arguments := []
  directives := []
  selections := []

theorem collect_split (objectType : Name) : splitEnvironment.collect objectType splitSelections =
    [{ toFieldHead := selfPair.first, selections := firstBelow }, leafNode "name",
      { toFieldHead := selfPair.second, selections := secondBelow }] :=
  rfl

/-- On an object type to which the fragment does not apply, its fields are absent. -/
theorem collect_below (objectType : Name) :
    splitEnvironment.collect objectType (firstBelow ++ secondBelow) =
      if splitEnvironment.applies objectType "Query" then [leafNode "name", leafNode "failing"]
      else [leafNode "failing"] := by
  have hl : splitEnvironment.fragments.length = 1 := rfl
  have hf : Fragment.find? splitEnvironment.fragments "Name" = some nameFragment := rfl
  have hi : splitEnvironment.includes [] = true := rfl
  rw [Scope.collect, hl]
  simp only [firstBelow, secondBelow, field, leafNode, List.cons_append, List.nil_append,
    Scope.collectWithin, Scope.collectAll, Scope.collectOne, hf, hi, nameFragment,
    List.contains_nil]
  cases splitEnvironment.applies objectType "Query" <;> rfl

theorem selections_of_visits {visit : Visit}
    (h : Relation.ReflTransGen splitEnvironment.Visits (Execution.rootVisit {} splitPrepared)
      visit) :
    visit.selections = splitSelections ∨ visit.selections = firstBelow ++ secondBelow ∨
      visit.selections = [] := by
  induction h with
  | refl => exact Or.inl rfl
  | tail _ hstep ih =>
    obtain ⟨group, hg, _, _, _, _, _, _, hs⟩ := hstep
    rw [Scope.collectGroups] at hg
    rw [hs]
    rcases ih with h | h | h
    · rw [h, collect_split] at hg
      rcases List.mem_pair.mp hg with rfl | rfl
      · exact Or.inr (Or.inl rfl)
      · exact Or.inr (Or.inr rfl)
    · right; right
      rw [h, collect_below] at hg
      split at hg
      · rcases List.mem_pair.mp hg with rfl | rfl <;> rfl
      · cases List.mem_singleton.mp hg
        rfl
    · rw [h] at hg
      cases hg

theorem allowsMerging :
    splitEnvironment.AllowsMerging selfPair (Execution.rootVisit {} splitPrepared) where
  first := rfl
  second := rfl
  key := rfl
  adjacent visit hv := by
    refine FieldPair.adjacent_of_countP_le rfl ?_
    rcases selections_of_visits hv with h | h | h <;> rw [h]
    · rw [collect_split]
      decide
    · rw [collect_below]
      split <;> decide
    · exact Nat.zero_le 2

theorem prepare_splitDocument : Execution.prepare {} schema splitDocument = .ok splitPrepared :=
  rfl

end Sample

theorem Execution.returns_merged_sample : Acyclic Sample.splitDocument.fragments ∧
    Sample.selfPair.MergesDocument Sample.splitDocument Sample.mergedDocument ∧
    Sample.application.IgnoresOperation ∧ Sample.application.IgnoresNodes ∧
    Sample.splitEnvironment.AllowsMerging Sample.selfPair
      (Execution.rootVisit {} Sample.splitPrepared) ∧
    ∃ response s', Execution.Returns {} Sample.schema Sample.application Sample.splitDocument ()
        response s' ∧
      Execution.Returns {} Sample.schema Sample.application Sample.mergedDocument () response
        s' := by
  refine ⟨Sample.acyclic_nameFragment, Sample.mergesDocument, Sample.ignoresOperation,
    Sample.ignoresNodes, Sample.allowsMerging, returns_merged Sample.acyclic_nameFragment
      Sample.mergesDocument Sample.ignoresOperation Sample.ignoresNodes ?_ ()⟩
  intro prepared hp
  cases Sample.prepare_splitDocument.symm.trans hp
  exact Sample.allowsMerging

end GraphQL
