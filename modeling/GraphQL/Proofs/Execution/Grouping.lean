import Mathlib.Data.List.Forall2
import Mathlib.Data.List.Induction
import GraphQL.Execution.Collection

/-!
# `GraphQL/Proofs/Execution/Grouping.lean` — groups of field nodes, without the fold

Grouping is written as a fold, which says how the groups come about and not what they are. Two
laws say what they are. The keys are those of the nodes in the order in which they first occur
(`FieldGroup.keys_ofNodes`), and the nodes of a group are all nodes of its key in the order of the
document (`FieldGroup.nodes_of_mem_ofNodes`), so its first node is the first of its key. Together
they determine the groups, and neither mentions `add`.
-/

set_option autoImplicit false

namespace GraphQL.FieldGroup

theorem ofNodes_concat (nodes : List FieldNode) (node : FieldNode) :
    ofNodes (nodes ++ [node]) = add (ofNodes nodes) node := by
  rw [ofNodes, List.foldl_append]
  rfl

/-- The keys of the groups are the keys of the nodes, each where it first occurs. -/
theorem keys_ofNodes (nodes : List FieldNode) :
    (ofNodes nodes).map key = (nodes.map (·.key)).eraseDups := by
  induction nodes using List.reverseRecOn with
  | nil => rfl
  | append_singleton nodes node ih =>
    have hm : node.key ∈ (nodes.map (·.key)).eraseDups ↔ node.key ∈ nodes.map (·.key) :=
      List.mem_eraseDups
    rw [ofNodes_concat, keys_add, ih, List.map_append, List.eraseDups_append]
    by_cases hk : node.key ∈ nodes.map (·.key)
    · have hr : [node.key].removeAll (nodes.map (·.key)) = [] := by
        rw [List.removeAll, List.filter_cons_of_neg (by simpa using hk), List.filter_nil]
      rw [if_pos (hm.mpr hk), List.map_singleton, hr, List.eraseDups_nil, List.append_nil]
    · have hr : [node.key].removeAll (nodes.map (·.key)) = [node.key] := by
        rw [List.removeAll, List.filter_cons_of_pos (by simpa using hk), List.filter_nil]
      rw [if_neg (hk ∘ hm.mp), List.map_singleton, hr]
      rfl

/-- The group of a node that is the only one of its key. -/
def alone (node : FieldNode) : FieldGroup where
  key := node.key
  first := node
  more := []

@[simp] theorem selections_alone (node : FieldNode) :
    (alone node).selections = node.selections := by
  simp [selections, nodes, alone]

theorem add_of_not_mem {groups : List FieldGroup} {node : FieldNode}
    (h : node.key ∉ groups.map key) : add groups node = groups ++ [alone node] := by
  induction groups with
  | nil => rfl
  | cons group rest ih =>
    rw [List.map_cons, List.mem_cons, not_or] at h
    rw [add, if_neg fun he => h.1 he.symm, ih h.2, List.cons_append]

theorem ofNodes_of_nodup {nodes : List FieldNode} (h : (nodes.map (·.key)).Nodup) :
    ofNodes nodes = nodes.map alone := by
  induction nodes using List.reverseRecOn with
  | nil => rfl
  | append_singleton nodes node ih =>
    rw [List.map_append, List.nodup_append] at h
    have hnew : node.key ∉ (ofNodes nodes).map key := by
      rw [keys_ofNodes, List.mem_eraseDups]
      intro hm
      exact h.2.2 _ hm _ (List.mem_singleton_self _) rfl
    rw [ofNodes_concat, add_of_not_mem hnew, ih h.1, List.map_append, List.map_singleton]

/-- A node joins the group of its key, which is new if there was none. -/
theorem cases_of_mem_add {groups : List FieldGroup} (hn : (groups.map key).Nodup) {node : FieldNode}
    {group : FieldGroup} (h : group ∈ add groups node) :
    (group ∈ groups ∧ group.key ≠ node.key) ∨
      (∃ earlier ∈ groups, earlier.key = node.key ∧
        group = { earlier with more := earlier.more ++ [node] }) ∨
      ((∀ earlier ∈ groups, earlier.key ≠ node.key) ∧
        group = { key := node.key, first := node, more := [] }) := by
  induction groups with
  | nil =>
    rw [add, List.mem_singleton] at h
    exact Or.inr (Or.inr ⟨List.forall_mem_nil _, h⟩)
  | cons head rest ih =>
    rw [List.map_cons, List.nodup_cons] at hn
    rw [add] at h
    split at h
    · next hk =>
      rcases List.mem_cons.mp h with rfl | h
      · exact Or.inr (Or.inl ⟨head, List.mem_cons_self, hk, rfl⟩)
      · refine Or.inl ⟨List.mem_cons_of_mem _ h, fun he => hn.1 ?_⟩
        rw [hk, ← he]
        exact List.mem_map_of_mem h
    · next hk =>
      rcases List.mem_cons.mp h with rfl | h
      · exact Or.inl ⟨List.mem_cons_self, hk⟩
      · rcases ih hn.2 h with ⟨hm, hne⟩ | ⟨earlier, hm, he, hg⟩ | ⟨hnone, hg⟩
        · exact Or.inl ⟨List.mem_cons_of_mem _ hm, hne⟩
        · exact Or.inr (Or.inl ⟨earlier, List.mem_cons_of_mem _ hm, he, hg⟩)
        · exact Or.inr (Or.inr ⟨List.forall_mem_cons.mpr ⟨hk, hnone⟩, hg⟩)

theorem perm_add (groups : List FieldGroup) (node : FieldNode) :
    ((add groups node).flatMap nodes).Perm (groups.flatMap nodes ++ [node]) := by
  induction groups with
  | nil => exact List.Perm.refl _
  | cons group rest ih =>
    rw [add]
    split
    · -- The node goes to the end of its group, before the nodes of all groups after it.
      have hg : ({ group with more := group.more ++ [node] } : FieldGroup).nodes =
          group.nodes ++ [node] := rfl
      rw [List.flatMap_cons, List.flatMap_cons, hg, List.append_assoc, List.append_assoc]
      exact List.Perm.append_left _ List.perm_append_comm
    · rw [List.flatMap_cons, List.flatMap_cons, List.append_assoc]
      exact List.Perm.append_left _ ih

/-- Grouping loses no node and brings none in. -/
theorem perm_ofNodes (nodes : List FieldNode) :
    ((ofNodes nodes).flatMap FieldGroup.nodes).Perm nodes := by
  induction nodes using List.reverseRecOn with
  | nil => exact List.Perm.refl _
  | append_singleton nodes node ih =>
    rw [ofNodes_concat]
    exact (perm_add _ _).trans (ih.append_right _)

/-- The nodes of a group are all nodes of its key, in order. -/
theorem nodes_of_mem_ofNodes {nodes : List FieldNode} {group : FieldGroup}
    (h : group ∈ ofNodes nodes) : group.nodes = nodes.filter (·.key = group.key) := by
  induction nodes using List.reverseRecOn generalizing group with
  | nil => cases h
  | append_singleton nodes node ih =>
    rw [ofNodes_concat] at h
    rw [List.filter_append]
    rcases cases_of_mem_add (nodup_keys_ofNodes nodes) h with
      ⟨hm, hne⟩ | ⟨earlier, hm, he, rfl⟩ | ⟨hnone, rfl⟩
    · rw [ih hm, List.filter_cons_of_neg (by simpa using hne.symm), List.filter_nil,
        List.append_nil]
    · rw [List.filter_cons_of_pos (by simpa using he.symm), List.filter_nil, ← ih hm]
      rfl
    · -- The key is new, so no node before has it.
      have hempty : nodes.filter (·.key = node.key) = [] := by
        rw [List.filter_eq_nil_iff]
        intro other ho hk
        have hmem : other.key ∈ (ofNodes nodes).map key := by
          rw [keys_ofNodes, List.mem_eraseDups]
          exact List.mem_map_of_mem ho
        obtain ⟨earlier, hm, he⟩ := List.mem_map.mp hmem
        exact hnone earlier hm (he.trans (of_decide_eq_true hk))
      rw [hempty, List.filter_cons_of_pos (by simp), List.filter_nil]
      rfl

/-- Groups with the same keys match by position. -/
theorem forall₂_of_keys_eq {groups groups' : List FieldGroup}
    (h : groups.map key = groups'.map key) :
    List.Forall₂ (fun group group' => group ∈ groups ∧ group' ∈ groups' ∧ group.key = group'.key)
      groups groups' := by
  have heq : List.Forall₂ Eq (groups.map key) (groups'.map key) := by
    rw [List.forall₂_eq_eq_eq]
    exact h
  have hpairs := List.forall₂_map_right_iff.mp (List.forall₂_map_left_iff.mp heq)
  rw [List.forall₂_iff_zip] at hpairs ⊢
  refine ⟨hpairs.1, fun {group group'} hm => ?_⟩
  obtain ⟨hg, hg'⟩ := List.of_mem_zip hm
  exact ⟨hg, hg', hpairs.2 hm⟩

/-- Nodes that go along with others of the same keys fall into groups that do. -/
theorem forall₂_ofNodes {R : FieldNode → FieldNode → Prop} (hk : ∀ a b, R a b → a.key = b.key)
    {nodes nodes' : List FieldNode} (h : List.Forall₂ R nodes nodes') :
    List.Forall₂ (fun group group' => group.key = group'.key ∧
      List.Forall₂ R group.nodes group'.nodes) (ofNodes nodes) (ofNodes nodes') := by
  have hkeys : nodes.map (·.key) = nodes'.map (·.key) := by
    rw [← List.forall₂_eq_eq_eq, List.forall₂_map_left_iff, List.forall₂_map_right_iff]
    exact h.imp hk
  have hgroups : (ofNodes nodes).map key = (ofNodes nodes').map key := by
    rw [keys_ofNodes, keys_ofNodes, hkeys]
  refine (forall₂_of_keys_eq hgroups).imp fun group group' hpair => ?_
  obtain ⟨hg, hg', he⟩ := hpair
  refine ⟨he, ?_⟩
  rw [nodes_of_mem_ofNodes hg, nodes_of_mem_ofNodes hg', ← he]
  exact List.rel_filter (fun a b hab => by simp [hk a b hab]) h

/-- The group with each of its nodes changed, where the key stays. -/
def map (f : FieldNode → FieldNode) (group : FieldGroup) : FieldGroup where
  key := group.key
  first := f group.first
  more := group.more.map f

@[simp] theorem nodes_map (f : FieldNode → FieldNode) (group : FieldGroup) :
    (group.map f).nodes = group.nodes.map f := rfl

theorem add_map {f : FieldNode → FieldNode} (hf : ∀ node, (f node).key = node.key)
    (groups : List FieldGroup) (node : FieldNode) :
    add (groups.map (map f)) (f node) = (add groups node).map (map f) := by
  induction groups with
  | nil =>
    rw [List.map_nil, add, hf]
    rfl
  | cons group rest ih =>
    have hkey : (group.map f).key = group.key := rfl
    rw [List.map_cons, add, add, hkey, hf, ih]
    split
    · simp [map]
    · rfl

/-- Nodes that are changed and keep their keys fall into the same groups. -/
theorem ofNodes_map {f : FieldNode → FieldNode} (hf : ∀ node, (f node).key = node.key)
    (nodes : List FieldNode) : ofNodes (nodes.map f) = (ofNodes nodes).map (map f) := by
  induction nodes using List.reverseRecOn with
  | nil => rfl
  | append_singleton nodes node ih =>
    rw [List.map_append, List.map_singleton, ofNodes_concat, ofNodes_concat, ih, add_map hf]

/-- The first node of a group is the first of its key. -/
theorem find?_eq_first {nodes : List FieldNode} {group : FieldGroup}
    (h : group ∈ ofNodes nodes) : nodes.find? (·.key = group.key) = some group.first := by
  rw [← List.head?_filter, ← nodes_of_mem_ofNodes h]
  rfl

end GraphQL.FieldGroup
