import Mathlib.Tactic.Tauto
import Mathlib.Data.List.Basic

/-!
# `GraphQL/Proofs/Execution/Echoes.lean` — lists that are the same but for repetitions

One list goes along with another and repeats itself in between. The relation keeps what grouping
needs: filtering leaves it (`Echoes.filter`), and what is left without repetitions is the same on
both sides (`Echoes.eraseDups_eq`). It is built up from the front, since whether an entry is a
repetition depends on what is before it; so lists are put together with what has been `seen` so far
(`Echoes.append`).
-/

set_option autoImplicit false

namespace GraphQL

/-- The second list goes along with the first, entry by entry, and repeats itself in between: what
it has beyond the first is `seen` or has occurred before. -/
inductive Echoes {α β : Type} (R : α → β → Prop) : List β → List α → List β → Prop where
  | nil {seen : List β} : Echoes R seen [] []
  | next {seen : List β} {a : α} {b : β} {as : List α} {bs : List β} (h : R a b)
    (hr : Echoes R (b :: seen) as bs) : Echoes R seen (a :: as) (b :: bs)
  | again {seen : List β} {b : β} {as : List α} {bs : List β} (h : b ∈ seen)
    (hr : Echoes R seen as bs) : Echoes R seen as (b :: bs)

namespace Echoes

variable {α β γ δ : Type} {R : α → β → Prop} {seen : List β} {as : List α} {bs : List β}

theorem mono (h : Echoes R seen as bs) {more : List β} (hs : seen ⊆ more) :
    Echoes R more as bs := by
  induction h generalizing more with
  | nil => exact .nil
  | next hab _ ih => exact .next hab (ih (List.cons_subset_cons _ hs))
  | again hb _ ih => exact .again (hs hb) (ih hs)

theorem of_subset (h : bs ⊆ seen) : Echoes R seen [] bs := by
  induction bs with
  | nil => exact .nil
  | cons b bs ih =>
    rw [List.cons_subset] at h
    exact .again h.1 (ih h.2)

/-- Where entries go along with themselves, both lists have the same ones, but for those seen. -/
theorem subset {seen as bs : List β} (h : Echoes Eq seen as bs) : as ⊆ bs ∧ bs ⊆ as ++ seen := by
  induction h with
  | nil => exact ⟨List.Subset.refl _, List.nil_subset _⟩
  | @next seen a b as bs hab _ ih =>
    subst hab
    refine ⟨List.cons_subset_cons a ih.1, fun c hc => ?_⟩
    rcases List.mem_cons.mp hc with rfl | hc
    · exact List.mem_cons_self
    · have hm := ih.2 hc
      simp only [List.cons_append, List.mem_cons, List.mem_append] at hm ⊢
      tauto
  | again hb _ ih =>
    refine ⟨List.Subset.trans ih.1 (List.subset_cons_self _ _), ?_⟩
    exact List.cons_subset.mpr ⟨List.mem_append_right _ hb, ih.2⟩

theorem append (h : Echoes R seen as bs) {as' : List α} {bs' : List β}
    (h' : Echoes R (bs ++ seen) as' bs') : Echoes R seen (as ++ as') (bs ++ bs') := by
  induction h with
  | nil => exact h'
  | @next seen a b as bs hab _ ih =>
    refine .next hab (ih (h'.mono ?_))
    intro x hx
    simp only [List.cons_append, List.mem_cons, List.mem_append] at hx ⊢
    tauto
  | @again seen b as bs hb _ ih =>
    refine .again hb (ih (h'.mono ?_))
    rw [List.cons_append, List.cons_subset]
    exact ⟨List.mem_append_right _ hb, List.Subset.refl _⟩

/-- Filtering both lists by what related entries have in common keeps them together. -/
theorem filter {p : α → Bool} {q : β → Bool} (hpq : ∀ a b, R a b → p a = q b)
    (h : Echoes R seen as bs) : Echoes R (seen.filter q) (as.filter p) (bs.filter q) := by
  induction h with
  | nil => exact .nil
  | @next seen a b as bs hab _ ih =>
    cases hb : q b with
    | true =>
      rw [List.filter_cons_of_pos ((hpq a b hab).trans hb), List.filter_cons_of_pos hb]
      rw [List.filter_cons_of_pos hb] at ih
      exact .next hab ih
    | false =>
      have ha : ¬ p a = true := by rw [hpq a b hab, hb]; exact Bool.false_ne_true
      have hb' : ¬ q b = true := by rw [hb]; exact Bool.false_ne_true
      rw [List.filter_cons_of_neg ha, List.filter_cons_of_neg hb']
      rwa [List.filter_cons_of_neg hb'] at ih
  | @again seen b as bs hm _ ih =>
    cases hb : q b with
    | true =>
      rw [List.filter_cons_of_pos hb]
      exact .again (List.mem_filter.mpr ⟨hm, hb⟩) ih
    | false =>
      rwa [List.filter_cons_of_neg (by rw [hb]; exact Bool.false_ne_true)]

theorem map {Q : γ → δ → Prop} {f : α → γ} {g : β → δ} (hfg : ∀ a b, R a b → Q (f a) (g b))
    (h : Echoes R seen as bs) : Echoes Q (seen.map g) (as.map f) (bs.map g) := by
  induction h with
  | nil => exact .nil
  | next hab _ ih => exact .next (hfg _ _ hab) ih
  | again hb _ ih => exact .again (List.mem_map_of_mem hb) ih

/-- Without repetitions both lists are the same. -/
theorem eraseDups_eq [BEq γ] [LawfulBEq γ] {as bs : List γ} (h : Echoes Eq [] as bs) :
    as.eraseDups = bs.eraseDups := by
  -- The induction needs the lists less what has been seen: a repetition is not in there.
  have hgeneral : ∀ {seen as bs : List γ}, Echoes Eq seen as bs →
      (as.filter fun c => !seen.contains c).eraseDups =
        (bs.filter fun c => !seen.contains c).eraseDups := by
    intro seen as bs h
    induction h with
    | nil => rfl
    | @next seen a b as bs hab _ ih =>
      subst hab
      have hsplit : ∀ cs : List γ, (cs.filter fun c => !(a :: seen).contains c) =
          (cs.filter fun c => !seen.contains c).filter fun c => !c == a := by
        intro cs
        rw [List.filter_filter]
        refine List.filter_congr fun c _ => ?_
        rw [List.contains_cons, Bool.not_or]
      by_cases ha : a ∈ seen
      · -- What has been seen is left out, and it makes no difference to see it once more.
        have hsame : ∀ cs : List γ, (cs.filter fun c => !(a :: seen).contains c) =
            cs.filter fun c => !seen.contains c := by
          intro cs
          refine List.filter_congr fun c _ => ?_
          rw [List.contains_cons]
          by_cases hc : c = a
          · subst hc
            simp [ha]
          · simp [hc]
        rw [hsame, hsame] at ih
        rw [List.filter_cons_of_neg (by simpa using ha),
          List.filter_cons_of_neg (by simpa using ha), ih]
      · rw [hsplit, hsplit] at ih
        rw [List.filter_cons_of_pos (by simpa using ha),
          List.filter_cons_of_pos (by simpa using ha), List.eraseDups_cons, List.eraseDups_cons,
          ih]
    | @again seen b as bs hm _ ih =>
      rw [List.filter_cons_of_neg (by simpa using hm), ih]
  simpa using hgeneral h

theorem forall_right {P : β → Prop} (hP : ∀ a b, R a b → P b) (h : Echoes R seen as bs)
    (hs : ∀ b ∈ seen, P b) : ∀ b ∈ bs, P b := by
  induction h with
  | nil => exact List.forall_mem_nil _
  | next hab _ ih =>
    have hb := hP _ _ hab
    exact List.forall_mem_cons.mpr ⟨hb, ih (List.forall_mem_cons.mpr ⟨hb, hs⟩)⟩
  | again hm _ ih => exact List.forall_mem_cons.mpr ⟨hs _ hm, ih hs⟩

end Echoes

end GraphQL
