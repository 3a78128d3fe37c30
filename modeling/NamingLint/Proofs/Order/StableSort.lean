import Mathlib.Data.List.Basic

/-!
# NamingLint — stable sorting

Entries are sorted by a comparison under which different entries may tie. A list sorted stably is
then not told by its members alone, but by its *tie classes*: for each entry, the entries that tie
with it, in their order.

Main results:

* `filter_ties_sortBy` — sorting keeps the tie classes.
* `sortBy_eq_of_ties` — lists with the same tie classes are sorted alike.
* `sortBy_append_sortBy` — sorting the parts first changes nothing.
* `sortBy_append_comm` — parts that do not tie with each other may change places.
* `filter_sortBy` — leaving entries out before or after sorting is the same.
-/

namespace NamingLint

variable {α : Type} {cmp : α → α → Ordering}

/-- The entries in order; entries that tie stay in the order in which they are. -/
def sortBy (cmp : α → α → Ordering) (l : List α) : List α :=
  l.mergeSort fun a b => (cmp a b).isLE

/-- Do two entries tie? -/
def ties (cmp : α → α → Ordering) (a b : α) : Bool :=
  cmp a b == .eq

@[simp] theorem ties_iff {a b : α} : ties cmp a b = true ↔ cmp a b = .eq := by
  simp [ties]

section Sorting

variable [Std.TransCmp cmp]

theorem isLE_trans (a b c : α) (hab : (cmp a b).isLE) (hbc : (cmp b c).isLE) : (cmp a c).isLE :=
  Std.TransCmp.isLE_trans hab hbc

theorem isLE_total (a b : α) : ((cmp a b).isLE || (cmp b a).isLE) = true := by
  have hswap : cmp b a = (cmp a b).swap := Std.OrientedCmp.eq_swap
  rw [hswap]
  cases cmp a b <;> rfl

theorem pairwise_sortBy (l : List α) : (sortBy cmp l).Pairwise fun a b => (cmp a b).isLE :=
  List.pairwise_mergeSort isLE_trans isLE_total l

/-- The entries that tie with one and the same entry are in order, in any list. -/
theorem pairwise_filter_ties (a : α) (l : List α) :
    (l.filter (ties cmp a)).Pairwise fun b c => (cmp b c).isLE := by
  apply List.pairwise_of_forall_mem_list
  intro b hb c hc
  have hab : cmp a b = .eq := by simpa using (List.mem_filter.mp hb).2
  have hac : cmp a c = .eq := by simpa using (List.mem_filter.mp hc).2
  have hbc : cmp b c = .eq := Std.TransCmp.eq_trans (Std.OrientedCmp.eq_symm hab) hac
  simp [hbc]

/-- Sorting keeps the entries that tie with an entry, and their order. -/
theorem filter_ties_sortBy (a : α) (l : List α) :
    (sortBy cmp l).filter (ties cmp a) = l.filter (ties cmp a) := by
  have hkept : (l.filter (ties cmp a)).Sublist (sortBy cmp l) :=
    List.sublist_mergeSort isLE_trans isLE_total (pairwise_filter_ties a l) List.filter_sublist
  have hsub : (l.filter (ties cmp a)).Sublist ((sortBy cmp l).filter (ties cmp a)) := by
    simpa using hkept.filter (ties cmp a)
  -- a sublist of the same length is the list itself
  have hperm : (sortBy cmp l).Perm l := List.mergeSort_perm l _
  exact (hsub.eq_of_length (hperm.filter _).length_eq.symm).symm

/-- Lists with the same tie classes have the same members. -/
theorem mem_iff_of_ties {l₁ l₂ : List α}
    (h : ∀ a, l₁.filter (ties cmp a) = l₂.filter (ties cmp a)) (a : α) : a ∈ l₁ ↔ a ∈ l₂ := by
  have hself : ties cmp a a = true := ties_iff.mpr Std.ReflCmp.compare_self
  have hiff : a ∈ l₁.filter (ties cmp a) ↔ a ∈ l₂.filter (ties cmp a) := by rw [h a]
  simpa [List.mem_filter, hself] using hiff

/-- A list in order is told by its tie classes. -/
theorem eq_of_pairwise_of_ties {l₁ l₂ : List α} (h₁ : l₁.Pairwise fun a b => (cmp a b).isLE)
    (h₂ : l₂.Pairwise fun a b => (cmp a b).isLE)
    (h : ∀ a, l₁.filter (ties cmp a) = l₂.filter (ties cmp a)) : l₁ = l₂ := by
  have hmem := mem_iff_of_ties h
  induction l₁ generalizing l₂ with
  | nil =>
    cases l₂ with
    | nil => rfl
    | cons b l₂ => simpa using hmem b
  | cons a l₁ ih =>
    cases l₂ with
    | nil => simpa using hmem a
    | cons b l₂ =>
      -- each head is in the other list, so neither comes after the other
      have hab : (cmp a b).isLE := by
        rcases List.mem_cons.mp ((hmem b).mpr List.mem_cons_self) with rfl | hb
        · exact Std.ReflCmp.isLE_rfl
        · exact List.rel_of_pairwise_cons h₁ hb
      have hba : (cmp b a).isLE := by
        rcases List.mem_cons.mp ((hmem a).mp List.mem_cons_self) with rfl | ha
        · exact Std.ReflCmp.isLE_rfl
        · exact List.rel_of_pairwise_cons h₂ ha
      have htie : cmp a b = .eq := Std.OrientedCmp.isLE_antisymm hab hba
      have hself : ties cmp a a = true := ties_iff.mpr Std.ReflCmp.compare_self
      have hheads := h a
      rw [List.filter_cons_of_pos hself, List.filter_cons_of_pos (ties_iff.mpr htie),
        List.cons.injEq] at hheads
      obtain ⟨rfl, -⟩ := hheads
      -- the common head is in the tie class of `c` on both sides or on neither
      have htails : ∀ c, l₁.filter (ties cmp c) = l₂.filter (ties cmp c) := by
        intro c
        have hc := h c
        by_cases hca : ties cmp c a = true
        · rw [List.filter_cons_of_pos hca, List.filter_cons_of_pos hca, List.cons.injEq] at hc
          exact hc.2
        · rwa [List.filter_cons_of_neg hca, List.filter_cons_of_neg hca] at hc
      rw [ih h₁.of_cons h₂.of_cons htails (mem_iff_of_ties htails)]

/-- Lists with the same tie classes are sorted alike. -/
theorem sortBy_eq_of_ties {l₁ l₂ : List α}
    (h : ∀ a, l₁.filter (ties cmp a) = l₂.filter (ties cmp a)) :
    sortBy cmp l₁ = sortBy cmp l₂ := by
  apply eq_of_pairwise_of_ties (pairwise_sortBy l₁) (pairwise_sortBy l₂)
  intro a
  rw [filter_ties_sortBy, filter_ties_sortBy, h a]

/-- Sorting the parts first changes nothing. -/
theorem sortBy_append_sortBy (l₁ l₂ : List α) :
    sortBy cmp (sortBy cmp l₁ ++ sortBy cmp l₂) = sortBy cmp (l₁ ++ l₂) := by
  apply sortBy_eq_of_ties
  intro a
  rw [List.filter_append, List.filter_append, filter_ties_sortBy, filter_ties_sortBy]

/-- Parts that do not tie with each other may change places. -/
theorem sortBy_append_comm {l₁ l₂ : List α} (h : ∀ a ∈ l₁, ∀ b ∈ l₂, cmp a b ≠ .eq) :
    sortBy cmp (l₁ ++ l₂) = sortBy cmp (l₂ ++ l₁) := by
  apply sortBy_eq_of_ties
  intro c
  rw [List.filter_append, List.filter_append]
  -- no entry ties with members of both parts
  by_cases hleft : l₁.filter (ties cmp c) = []
  · simp [hleft]
  · obtain ⟨a, ha⟩ := List.exists_mem_of_ne_nil _ hleft
    obtain ⟨ha, hca⟩ := List.mem_filter.mp ha
    have hright : l₂.filter (ties cmp c) = [] := by
      rw [List.filter_eq_nil_iff]
      intro b hb hcb
      rw [ties_iff] at hca hcb
      exact h a ha b hb (Std.TransCmp.eq_trans (Std.OrientedCmp.eq_symm hca) hcb)
    simp [hright]

/-- To sort and then to filter is to filter and then to sort. -/
theorem filter_sortBy (p : α → Bool) (l : List α) :
    (sortBy cmp l).filter p = sortBy cmp (l.filter p) := by
  have hsorted : ((sortBy cmp l).filter p).Pairwise fun a b => (cmp a b).isLE :=
    (pairwise_sortBy l).filter p
  apply eq_of_pairwise_of_ties hsorted (pairwise_sortBy (l.filter p))
  intro a
  rw [filter_ties_sortBy, List.filter_comm, filter_ties_sortBy, List.filter_comm]

end Sorting

end NamingLint
