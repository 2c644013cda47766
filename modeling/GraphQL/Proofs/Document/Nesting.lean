import Mathlib.Data.Fintype.Card
import Mathlib.Data.List.Induction
import Mathlib.Data.Set.Finite.Basic
import GraphQL.Document

/-!
# `GraphQL/Proofs/Document/Nesting.lean` — how deep the fields of a document nest

A document is finite, but what it selects need not be: a fragment that spreads itself inside a field
selects fields below fields without end. A fragment that spreads itself beside its fields does not,
because on one level it adds nothing new. So what matters is not whether fragments reach themselves
but whether a field is entered on the way (`Reaches` keeps count of that), and selections are *well
nested* if no fragment that they reach gets back to itself through a field.

Being well nested says nothing about a number. That there is one — levels of fields that are never
exceeded (`Bounded`) — is the theorem of this file, `WellNested.exists_bounded`. The fragments
that are reached are finitely many and reaching through a field is a strict order among them, so it
is well founded; along it, and inside each fragment along its text, bounds add up.
-/

set_option autoImplicit false

namespace GraphQL

/-! ## 1. One level of selections -/

mutual

/-- The sub-selections of the fields that stand in a selection on its own level. -/
def Selection.subselections : Selection → List (List Selection)
  | .field _ selections => [selections]
  | .inline _ _ selections => allSubselections selections
  | .spread _ _ => []

/-- The sub-selections of the fields that stand in several selections on their own level. -/
def Selection.allSubselections : List Selection → List (List Selection)
  | [] => []
  | selection :: rest => selection.subselections ++ allSubselections rest

end

theorem Selection.mem_allSubselections {below all : List Selection} :
    below ∈ allSubselections all ↔ ∃ selection ∈ all, below ∈ selection.subselections := by
  induction all with
  | nil => simp [allSubselections]
  | cons selection rest ih =>
    rw [allSubselections, List.mem_append, ih]
    simp

/-- A fragment is reached from selections: by a spread in them, or by a spread in what is reached;
`entered` tells whether a field has been entered on the way. -/
inductive Reaches (fragments : List Fragment) : List Selection → Bool → Fragment → Prop where
  | spread {selections : List Selection} {name : Name} {directives : List DirectiveUse}
    {fragment : Fragment} (hm : .spread name directives ∈ selections)
    (hf : Fragment.find? fragments name = some fragment) :
    Reaches fragments selections false fragment
  | inline {selections inner : List Selection} {condition : Option Name}
    {directives : List DirectiveUse} {entered : Bool} {fragment : Fragment}
    (hm : .inline condition directives inner ∈ selections)
    (h : Reaches fragments inner entered fragment) : Reaches fragments selections entered fragment
  | field {selections inner : List Selection} {head : FieldHead} {entered : Bool}
    {fragment : Fragment} (hm : .field head inner ∈ selections)
    (h : Reaches fragments inner entered fragment) : Reaches fragments selections true fragment
  | through {selections : List Selection} {entered entered' : Bool} {middle fragment : Fragment}
    (h : Reaches fragments selections entered middle)
    (h' : Reaches fragments middle.selections entered' fragment) :
    Reaches fragments selections (entered || entered') fragment

/-- No fragment that is reached gets back to itself through a field. -/
def WellNested (fragments : List Fragment) (selections : List Selection) : Prop :=
  ∀ entered fragment, Reaches fragments selections entered fragment →
    ¬ Reaches fragments fragment.selections true fragment

/-- A field with these sub-selections stands on the level of selections: in themselves, or in a
fragment that is reached from them without entering a field. -/
def Offers (fragments : List Fragment) (selections below : List Selection) : Prop :=
  below ∈ Selection.allSubselections selections ∨
    ∃ fragment, Reaches fragments selections false fragment ∧
      below ∈ Selection.allSubselections fragment.selections

/-- Fields stand at most so many levels inside each other. -/
def Bounded (fragments : List Fragment) : Nat → List Selection → Prop
  | 0, _ => False
  | depth + 1, selections =>
    ∀ below, Offers fragments selections below → Bounded fragments depth below

variable {fragments : List Fragment}

/-! ## 2. Reaching -/

theorem Fragment.mem_of_find? {name : Name} {fragment : Fragment}
    (hf : Fragment.find? fragments name = some fragment) : fragment ∈ fragments := by
  induction fragments using List.reverseRecOn with
  | nil => cases hf
  | append_singleton fragments last ih =>
    rw [Fragment.find?_concat] at hf
    split at hf
    · cases hf
      exact List.mem_append_right _ (List.mem_singleton_self _)
    · exact List.mem_append_left _ (ih hf)

/-- Fragments that are changed and keep their names are found in place of the old ones. -/
theorem Fragment.find?_map {f : Fragment → Fragment} (hf : ∀ fragment, (f fragment).name =
    fragment.name) (fragments : List Fragment) (name : Name) :
    Fragment.find? (fragments.map f) name = (Fragment.find? fragments name).map f := by
  induction fragments using List.reverseRecOn with
  | nil => rfl
  | append_singleton fragments last ih =>
    rw [List.map_append, List.map_singleton, Fragment.find?_concat, Fragment.find?_concat, ih, hf]
    split <;> rfl

namespace Reaches

variable {selections : List Selection} {entered : Bool} {fragment : Fragment}

theorem mem (h : Reaches fragments selections entered fragment) : fragment ∈ fragments := by
  induction h with
  | spread _ hf => exact Fragment.mem_of_find? hf
  | inline _ _ ih => exact ih
  | field _ _ ih => exact ih
  | through _ _ _ ih => exact ih

theorem mono (h : Reaches fragments selections entered fragment) {more : List Selection}
    (hs : selections ⊆ more) : Reaches fragments more entered fragment := by
  induction h generalizing more with
  | spread hm hf => exact .spread (hs hm) hf
  | inline hm h _ => exact .inline (hs hm) h
  | field hm h _ => exact .field (hs hm) h
  | through _ h' ih _ => exact .through (ih hs) h'

/-- What selections reach, one of them reaches. -/
theorem exists_selection (h : Reaches fragments selections entered fragment) :
    ∃ selection ∈ selections, Reaches fragments [selection] entered fragment := by
  induction h with
  | spread hm hf => exact ⟨_, hm, .spread (List.mem_singleton_self _) hf⟩
  | inline hm h _ => exact ⟨_, hm, .inline (List.mem_singleton_self _) h⟩
  | field hm h _ => exact ⟨_, hm, .field (List.mem_singleton_self _) h⟩
  | through _ h' ih _ =>
    obtain ⟨selection, hm, h⟩ := ih
    exact ⟨selection, hm, h.through h'⟩

end Reaches

mutual

/-- What is reached from the sub-selections of a field is reached through the field. -/
theorem Selection.reaches_of_mem_subselections {below : List Selection} {entered : Bool}
    {fragment : Fragment} (h : Reaches fragments below entered fragment) :
    ∀ selection : Selection, below ∈ selection.subselections →
      Reaches fragments [selection] true fragment
  | .field head selections, hm => by
    rw [subselections, List.mem_singleton] at hm
    subst hm
    exact .field (List.mem_singleton_self _) h
  | .inline condition directives selections, hm =>
    .inline (List.mem_singleton_self _) (reaches_of_mem_allSubselections h selections hm)
  | .spread name directives, hm => by cases hm

theorem Selection.reaches_of_mem_allSubselections {below : List Selection} {entered : Bool}
    {fragment : Fragment} (h : Reaches fragments below entered fragment) :
    ∀ all : List Selection, below ∈ allSubselections all → Reaches fragments all true fragment
  | [], hm => by cases hm
  | selection :: rest, hm => by
    rw [allSubselections, List.mem_append] at hm
    rcases hm with hm | hm
    · exact (reaches_of_mem_subselections h selection hm).mono
        (List.cons_subset_cons _ (List.nil_subset _))
    · exact (reaches_of_mem_allSubselections h rest hm).mono (List.subset_cons_self _ _)

end

mutual

theorem Selection.sizeOf_lt_of_mem_subselections {below : List Selection} :
    ∀ selection : Selection, below ∈ selection.subselections → sizeOf below < sizeOf selection
  | .field head selections, hm => by
    rw [subselections, List.mem_singleton] at hm
    subst hm
    rw [Selection.field.sizeOf_spec]
    omega
  | .inline condition directives selections, hm => by
    have h := sizeOf_lt_of_mem_allSubselections selections hm
    rw [Selection.inline.sizeOf_spec]
    omega
  | .spread name directives, hm => by cases hm

theorem Selection.sizeOf_lt_of_mem_allSubselections {below : List Selection} :
    ∀ all : List Selection, below ∈ allSubselections all → sizeOf below < sizeOf all
  | [], hm => by cases hm
  | selection :: rest, hm => by
    rw [allSubselections, List.mem_append] at hm
    rcases hm with hm | hm
    · have h := sizeOf_lt_of_mem_subselections selection hm
      rw [List.cons.sizeOf_spec]
      omega
    · have h := sizeOf_lt_of_mem_allSubselections rest hm
      rw [List.cons.sizeOf_spec]
      omega

end

/-! ## 3. One level, with its fragments -/

namespace Offers

variable {below : List Selection}

theorem mono {selections more : List Selection} (h : Offers fragments selections below)
    (hs : selections ⊆ more) : Offers fragments more below := by
  rcases h with h | ⟨fragment, hr, hb⟩
  · obtain ⟨selection, hm, hb⟩ := Selection.mem_allSubselections.mp h
    exact Or.inl (Selection.mem_allSubselections.mpr ⟨selection, hs hm, hb⟩)
  · exact Or.inr ⟨fragment, hr.mono hs, hb⟩

theorem field {head : FieldHead} : Offers fragments [.field head below] below := by
  refine Or.inl ?_
  rw [Selection.allSubselections, Selection.subselections]
  exact List.mem_append_left _ (List.mem_singleton_self _)

theorem inline {condition : Option Name} {directives : List DirectiveUse} {inner : List Selection}
    (h : Offers fragments inner below) :
    Offers fragments [.inline condition directives inner] below := by
  rcases h with h | ⟨fragment, hr, hb⟩
  · refine Or.inl ?_
    rw [Selection.allSubselections, Selection.subselections]
    exact List.mem_append_left _ h
  · exact Or.inr ⟨fragment, .inline (List.mem_singleton_self _) hr, hb⟩

theorem spread {name : Name} {directives : List DirectiveUse} {fragment : Fragment}
    (hf : Fragment.find? fragments name = some fragment)
    (h : Offers fragments fragment.selections below) :
    Offers fragments [.spread name directives] below := by
  have hr : Reaches fragments [.spread name directives] false fragment :=
    .spread (List.mem_singleton_self _) hf
  rcases h with h | ⟨other, hr', hb⟩
  · exact Or.inr ⟨fragment, hr, h⟩
  · exact Or.inr ⟨other, hr.through hr', hb⟩

theorem exists_selection {selections : List Selection} (h : Offers fragments selections below) :
    ∃ selection ∈ selections, Offers fragments [selection] below := by
  rcases h with h | ⟨fragment, hr, hb⟩
  · obtain ⟨selection, hm, hb⟩ := Selection.mem_allSubselections.mp h
    refine ⟨selection, hm, Or.inl ?_⟩
    exact Selection.mem_allSubselections.mpr ⟨selection, List.mem_singleton_self _, hb⟩
  · obtain ⟨selection, hm, hr⟩ := hr.exists_selection
    exact ⟨selection, hm, Or.inr ⟨fragment, hr, hb⟩⟩

end Offers

/-! ## 4. Bounds -/

namespace Bounded

variable {depth : Nat} {selections : List Selection}

theorem mono {depth' : Nat} (h : Bounded fragments depth selections) (hd : depth ≤ depth') :
    Bounded fragments depth' selections := by
  induction depth generalizing depth' selections with
  | zero => cases h
  | succ depth ih =>
    obtain ⟨depth', rfl⟩ : ∃ n, depth' = n + 1 := ⟨depth' - 1, by omega⟩
    intro below ho
    exact ih (h below ho) (by omega)

/-- Selections taken together nest as deep as the deepest of them. -/
theorem flatMap {α : Type} {select : α → List Selection} {all : List α} (hne : all ≠ [])
    (h : ∀ a ∈ all, Bounded fragments depth (select a)) :
    Bounded fragments depth (all.flatMap select) := by
  cases depth with
  | zero =>
    obtain ⟨a, ha⟩ := List.exists_mem_of_ne_nil all hne
    exact h a ha
  | succ depth =>
    intro below ho
    obtain ⟨selection, hm, ho⟩ := ho.exists_selection
    obtain ⟨a, ha, hm⟩ := List.mem_flatMap.mp hm
    exact h a ha below (ho.mono (List.cons_subset.mpr ⟨hm, List.nil_subset _⟩))

end Bounded

/-- Bounds for each of finitely many things have a common bound. -/
theorem exists_common_bound {α : Type} {P : Nat → α → Prop}
    (hmono : ∀ {m n a}, P m a → m ≤ n → P n a) (all : List α) (h : ∀ a ∈ all, ∃ n, P n a) :
    ∃ n, ∀ a ∈ all, P n a := by
  induction all with
  | nil => exact ⟨0, List.forall_mem_nil _⟩
  | cons a rest ih =>
    rw [List.forall_mem_cons] at h
    obtain ⟨m, hm⟩ := h.1
    obtain ⟨n, hn⟩ := ih h.2
    refine ⟨max m n, List.forall_mem_cons.mpr ⟨hmono hm (Nat.le_max_left m n), ?_⟩⟩
    intro a ha
    exact hmono (hn a ha) (Nat.le_max_right m n)

theorem exists_bounded_of_reaches (selections : List Selection)
    (h : ∀ entered fragment, Reaches fragments selections entered fragment →
      ∀ below ∈ Selection.allSubselections fragment.selections,
        ∃ depth, Bounded fragments depth below) :
    ∃ depth, Bounded fragments depth selections := by
  -- What is offered is among the sub-selections of the text, which are finitely many.
  obtain ⟨depth, hd⟩ : ∃ depth, ∀ below ∈ Selection.allSubselections selections ++
      fragments.flatMap fun fragment => Selection.allSubselections fragment.selections,
      Offers fragments selections below → Bounded fragments depth below := by
    refine exists_common_bound (fun hb hle ho => (hb ho).mono hle) _ fun below _ => ?_
    by_cases ho : Offers fragments selections below
    · rcases ho with hb | ⟨fragment, hr, hb⟩
      · -- Inside the selections themselves, sub-selections are shorter than what they stand in.
        have hlt := Selection.sizeOf_lt_of_mem_allSubselections selections hb
        obtain ⟨depth, hd⟩ := exists_bounded_of_reaches below fun entered fragment hr =>
          h true fragment (Selection.reaches_of_mem_allSubselections hr selections hb)
        exact ⟨depth, fun _ => hd⟩
      · obtain ⟨depth, hd⟩ := h false fragment hr below hb
        exact ⟨depth, fun _ => hd⟩
    · exact ⟨0, fun ho' => absurd ho' ho⟩
  refine ⟨depth + 1, fun below ho => hd below ?_ ho⟩
  rw [List.mem_append, List.mem_flatMap]
  rcases ho with hb | ⟨fragment, hr, hb⟩
  · exact Or.inl hb
  · exact Or.inr ⟨fragment, hr.mem, hb⟩
termination_by sizeOf selections

/-! ## 5. Well nested selections are bounded -/

/-- A fragment that is reached from selections. -/
abbrev Reached (fragments : List Fragment) (selections : List Selection) : Type :=
  { fragment // ∃ entered, Reaches fragments selections entered fragment }

/-- One fragment is reached from another through a field. -/
def Reached.Inside {selections : List Selection} (inner outer : Reached fragments selections) :
    Prop :=
  Reaches fragments outer.1.selections true inner.1

namespace WellNested

variable {selections : List Selection}

/-- Selections are well nested if no fragment gets back to itself at all. -/
theorem of_acyclic
    (h : ∀ entered fragment, ¬ Reaches fragments fragment.selections entered fragment) :
    WellNested fragments selections :=
  fun _ fragment _ => h true fragment

/-- Fragments are well nested, however they spread each other, if no field in them has
sub-selections. -/
theorem of_leaves (hf : ∀ fragment ∈ fragments,
      ∀ below ∈ Selection.allSubselections fragment.selections, below = []) :
    WellNested fragments selections := by
  have hflat : ∀ {selections entered fragment}, Reaches fragments selections entered fragment →
      (∀ below ∈ Selection.allSubselections selections, below = []) → entered = false := by
    intro selections entered fragment h
    induction h with
    | spread _ _ => exact fun _ => rfl
    | inline hm _ ih =>
      exact fun hs => ih fun below hb => hs below (Selection.mem_allSubselections.mpr ⟨_, hm, hb⟩)
    | field hm h _ =>
      intro hs
      have hinner := hs _ (Selection.mem_allSubselections.mpr ⟨_, hm, List.mem_singleton_self _⟩)
      subst hinner
      obtain ⟨selection, hm, -⟩ := h.exists_selection
      cases hm
    | through h _ ih ih' =>
      intro hs
      rw [ih hs, ih' (hf _ h.mem)]
      rfl
  intro entered fragment hr h
  cases hflat h (hf fragment hr.mem)

theorem wellFounded_inside (hn : WellNested fragments selections) :
    WellFounded (@Reached.Inside fragments selections) := by
  have hfinite : Finite (Reached fragments selections) :=
    (List.finite_toSet fragments).subset fun fragment ⟨entered, hr⟩ => hr.mem
  have htrans : IsTrans (Reached fragments selections) Reached.Inside :=
    ⟨fun _ _ _ h h' => h'.through h⟩
  have hirrefl : Std.Irrefl (@Reached.Inside fragments selections) :=
    ⟨fun ⟨fragment, entered, hr⟩ h => hn entered fragment hr h⟩
  exact Finite.wellFounded_of_trans_of_irrefl Reached.Inside

/-- Well nested selections have a bound. -/
theorem exists_bounded (hn : WellNested fragments selections) :
    ∃ depth, Bounded fragments depth selections := by
  have hbelow : ∀ fragment : Reached fragments selections,
      ∀ below ∈ Selection.allSubselections fragment.1.selections,
        ∃ depth, Bounded fragments depth below := by
    intro fragment
    induction fragment using hn.wellFounded_inside.induction with
    | h fragment ih =>
      intro below hb
      -- Whatever is reached from there is inside this fragment, where the induction goes down.
      refine exists_bounded_of_reaches below fun entered inner hr => ?_
      have hinside := Selection.reaches_of_mem_allSubselections hr fragment.1.selections hb
      obtain ⟨fragment, entered', hreached⟩ := fragment
      exact ih ⟨inner, _, hreached.through hinside⟩ hinside
  exact exists_bounded_of_reaches selections fun entered fragment hr =>
    hbelow ⟨fragment, entered, hr⟩

end WellNested

end GraphQL
