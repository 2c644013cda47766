import Mathlib.Data.List.Forall2
import GraphQL.Proofs.Document.Nesting

/-!
# `GraphQL/Proofs/Document/Inlining.lean` — fragments written out

A spread stands for the fragment that it names, so a document could be written without fragments:
each spread gives way to an inline fragment with the directives of the spread, and in it one with
the type condition, the directives and the selections of the fragment, whose own spreads have given
way before. A spread of an unknown name gives way to nothing.

`Inlines` is this replacement as a relation. It has one result at most (`Inlines.unique`), and it
has one wherever no fragment gets back to itself (`Acyclic.exists_inlines`). A fragment that does
would have to be written out for ever, and there is no derivation of that.
-/

set_option autoImplicit false

namespace GraphQL

/-- No fragment gets back to itself. -/
def Acyclic (fragments : List Fragment) : Prop :=
  ∀ entered fragment, ¬ Reaches fragments fragment.selections entered fragment

/-- Selections, and what they are with all spreads written out. -/
inductive Inlines (fragments : List Fragment) : List Selection → List Selection → Prop where
  | nil : Inlines fragments [] []
  | field {head : FieldHead} {below below' rest rest' : List Selection}
    (hb : Inlines fragments below below') (hr : Inlines fragments rest rest') :
    Inlines fragments (.field head below :: rest) (.field head below' :: rest')
  | inline {condition : Option Name} {directives : List DirectiveUse}
    {inner inner' rest rest' : List Selection} (hi : Inlines fragments inner inner')
    (hr : Inlines fragments rest rest') :
    Inlines fragments (.inline condition directives inner :: rest)
      (.inline condition directives inner' :: rest')
  | spread {name : Name} {directives : List DirectiveUse} {fragment : Fragment}
    {inner rest rest' : List Selection} (hf : Fragment.find? fragments name = some fragment)
    (hi : Inlines fragments fragment.selections inner) (hr : Inlines fragments rest rest') :
    Inlines fragments (.spread name directives :: rest)
      (.inline none directives [.inline (some fragment.condition) fragment.directives inner] ::
        rest')
  | unknown {name : Name} {directives : List DirectiveUse} {rest rest' : List Selection}
    (hf : Fragment.find? fragments name = none) (hr : Inlines fragments rest rest') :
    Inlines fragments (.spread name directives :: rest) rest'

variable {fragments : List Fragment}

/-! ## 1. One result at most -/

theorem Fragment.name_of_find? {name : Name} {fragment : Fragment}
    (hf : Fragment.find? fragments name = some fragment) :
    fragment.name = name := by
  induction fragments using List.reverseRecOn with
  | nil => cases hf
  | append_singleton fragments last ih =>
    rw [Fragment.find?_concat] at hf
    split at hf
    · next hn =>
      cases hf
      exact hn
    · exact ih hf

theorem Inlines.unique {selections inlined inlined' : List Selection}
    (h : Inlines fragments selections inlined) (h' : Inlines fragments selections inlined') :
    inlined = inlined' := by
  induction h generalizing inlined' with
  | nil =>
    cases h'
    rfl
  | field _ _ ihb ihr =>
    cases h' with
    | field hb hr => rw [ihb hb, ihr hr]
  | inline _ _ ihi ihr =>
    cases h' with
    | inline hi hr => rw [ihi hi, ihr hr]
  | spread hf _ _ ihi ihr =>
    cases h' with
    | spread hf' hi hr =>
      -- A name stands for one fragment.
      have he := hf.symm.trans hf'
      rw [Option.some.injEq] at he
      subst he
      rw [ihi hi, ihr hr]
    | unknown hf' _ =>
      rw [hf] at hf'
      cases hf'
  | unknown hf _ ihr =>
    cases h' with
    | spread hf' _ _ =>
      rw [hf] at hf'
      cases hf'
    | unknown _ hr => exact ihr hr

/-! ## 2. One result, without cycles -/

/-- Selections can be written out if the fragments that they reach can. -/
theorem exists_inlines_of_reaches : ∀ selections : List Selection,
    (∀ entered fragment, Reaches fragments selections entered fragment →
      ∃ inner, Inlines fragments fragment.selections inner) →
    ∃ inlined, Inlines fragments selections inlined
  | [], _ => ⟨[], .nil⟩
  | .field head below :: rest, h => by
    obtain ⟨below', hb⟩ := exists_inlines_of_reaches below fun entered fragment hr =>
      h true fragment (.field List.mem_cons_self hr)
    obtain ⟨rest', hr⟩ := exists_inlines_of_reaches rest fun entered fragment hr =>
      h entered fragment (hr.mono (List.subset_cons_self _ _))
    exact ⟨_, .field hb hr⟩
  | .inline condition directives inner :: rest, h => by
    obtain ⟨inner', hi⟩ := exists_inlines_of_reaches inner fun entered fragment hr =>
      h entered fragment (.inline List.mem_cons_self hr)
    obtain ⟨rest', hr⟩ := exists_inlines_of_reaches rest fun entered fragment hr =>
      h entered fragment (hr.mono (List.subset_cons_self _ _))
    exact ⟨_, .inline hi hr⟩
  | .spread name directives :: rest, h => by
    obtain ⟨rest', hr⟩ := exists_inlines_of_reaches rest fun entered fragment hr =>
      h entered fragment (hr.mono (List.subset_cons_self _ _))
    cases hf : Fragment.find? fragments name with
    | none => exact ⟨_, .unknown hf hr⟩
    | some fragment =>
      obtain ⟨inner, hi⟩ := h false fragment (.spread List.mem_cons_self hf)
      exact ⟨_, .spread hf hi hr⟩
termination_by selections => sizeOf selections

namespace Acyclic

/-- There are no cycles if every fragment selects one field and nothing below it. -/
theorem of_leaf (h : ∀ fragment ∈ fragments, ∃ head, fragment.selections = [.field head []]) :
    Acyclic fragments := by
  have hleaf : ∀ {selections entered inner}, Reaches fragments selections entered inner →
      ∀ head, selections ≠ [.field head []] := by
    intro selections entered inner hr
    induction hr with
    | spread hm _ =>
      rintro head rfl
      simp at hm
    | inline hm _ _ =>
      rintro head rfl
      simp at hm
    | field hm hr _ =>
      rintro head rfl
      simp only [List.mem_singleton, Selection.field.injEq] at hm
      obtain ⟨selection, hs, -⟩ := hr.exists_selection
      rw [hm.2] at hs
      cases hs
    | through _ _ ih _ => exact ih
  intro entered fragment hr
  obtain ⟨head, hs⟩ := h fragment hr.mem
  exact hleaf hr head hs

theorem wellNested (ha : Acyclic fragments) (selections : List Selection) :
    WellNested fragments selections :=
  .of_acyclic ha

/-- Without cycles, going from fragments to the fragments that they reach comes to an end. -/
theorem wellFounded (ha : Acyclic fragments) :
    WellFounded fun inner outer : { fragment // fragment ∈ fragments } =>
      ∃ entered, Reaches fragments outer.1.selections entered inner.1 := by
  have hfinite : Finite { fragment // fragment ∈ fragments } := List.finite_toSet fragments
  have htrans : IsTrans { fragment // fragment ∈ fragments } fun inner outer =>
      ∃ entered, Reaches fragments outer.1.selections entered inner.1 :=
    ⟨fun _ _ _ ⟨_, h⟩ ⟨_, h'⟩ => ⟨_, h'.through h⟩⟩
  have hirrefl : Std.Irrefl fun inner outer : { fragment // fragment ∈ fragments } =>
      ∃ entered, Reaches fragments outer.1.selections entered inner.1 :=
    ⟨fun ⟨fragment, _⟩ ⟨entered, h⟩ => ha entered fragment h⟩
  exact Finite.wellFounded_of_trans_of_irrefl _

/-- Without cycles, all selections can be written out. -/
theorem exists_inlines (ha : Acyclic fragments) (selections : List Selection) :
    ∃ inlined, Inlines fragments selections inlined := by
  have hfragments : ∀ fragment : { fragment // fragment ∈ fragments },
      ∃ inner, Inlines fragments fragment.1.selections inner := by
    intro fragment
    induction fragment using ha.wellFounded.induction with
    | h fragment ih =>
      apply exists_inlines_of_reaches
      intro entered inner hr
      exact ih ⟨inner, hr.mem⟩ ⟨entered, hr⟩
  apply exists_inlines_of_reaches
  intro entered fragment hr
  exact hfragments ⟨fragment, hr.mem⟩

end Acyclic

/-! ## 3. Documents -/

/-- An operation of a document, and the same operation with its spreads written out. -/
def Operation.Inlines (fragments : List Fragment) (operation inlined : Operation) : Prop :=
  ∃ selections, GraphQL.Inlines fragments operation.selections selections ∧
    inlined = { operation with selections }

/-- A fragment of a document, and the same fragment with its spreads written out. -/
def Fragment.Inlines (fragments : List Fragment) (fragment inlined : Fragment) : Prop :=
  ∃ selections, GraphQL.Inlines fragments fragment.selections selections ∧
    inlined = { fragment with selections }

/-- A field node, and the same node with all spreads below it written out. -/
def FieldNode.Inlines (fragments : List Fragment) (node inlined : FieldNode) : Prop :=
  inlined.toFieldHead = node.toFieldHead ∧
    GraphQL.Inlines fragments node.selections inlined.selections

/-- A document, and the same document with all spreads written out. -/
structure Document.Inlines (document inlined : Document) : Prop where
  operations : List.Forall₂ (Operation.Inlines document.fragments) document.operations
    inlined.operations
  fragments : List.Forall₂ (Fragment.Inlines document.fragments) document.fragments
    inlined.fragments

/-- What is determined for each of a list is determined for the list. -/
theorem existsUnique_forall₂ {α β : Type} {R : α → β → Prop} {all : List α}
    (h : ∀ a ∈ all, ∃! b, R a b) : ∃! all', List.Forall₂ R all all' := by
  induction all with
  | nil => exact ⟨[], .nil, fun _ hn => List.forall₂_nil_left_iff.mp hn⟩
  | cons a rest ih =>
    rw [List.forall_mem_cons] at h
    obtain ⟨b, hb, hub⟩ := h.1
    obtain ⟨rest', hr, hur⟩ := ih h.2
    refine ⟨b :: rest', .cons hb hr, ?_⟩
    rintro _ (_ | ⟨hb', hr'⟩)
    rw [hub _ hb', hur _ hr']

/-- A document without cycles is written out in exactly one way. -/
theorem Acyclic.existsUnique_inlines {document : Document} (ha : Acyclic document.fragments) :
    ∃! inlined, document.Inlines inlined := by
  have hoperation : ∀ operation ∈ document.operations,
      ∃! inlined, operation.Inlines document.fragments inlined := by
    intro operation _
    obtain ⟨selections, hs⟩ := ha.exists_inlines operation.selections
    refine ⟨_, ⟨selections, hs, rfl⟩, ?_⟩
    rintro _ ⟨selections', hs', rfl⟩
    rw [hs'.unique hs]
  have hfragment : ∀ fragment ∈ document.fragments,
      ∃! inlined, fragment.Inlines document.fragments inlined := by
    intro fragment _
    obtain ⟨selections, hs⟩ := ha.exists_inlines fragment.selections
    refine ⟨_, ⟨selections, hs, rfl⟩, ?_⟩
    rintro _ ⟨selections', hs', rfl⟩
    rw [hs'.unique hs]
  obtain ⟨operations, ho, huo⟩ := existsUnique_forall₂ hoperation
  obtain ⟨fragments, hf, huf⟩ := existsUnique_forall₂ hfragment
  refine ⟨{ operations, fragments }, ⟨ho, hf⟩, ?_⟩
  rintro other ⟨ho', hf'⟩
  cases huo _ ho'
  cases huf _ hf'
  rfl

end GraphQL
