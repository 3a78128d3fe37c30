import NamingLint.Proofs.Result.Merge

/-!
# NamingLint — the algebra of merging

Merging puts two results together and sorts the entries. The order of entries is a preorder only:
paths that differ in redundant slashes tie, and so do violations of different kinds in one place. So
the laws of merging are laws of stable sorting. They hold on the nose, the order of entries included,
and not just up to it.

* `StablyMerged` — what a list is that comes of two lists by stable sorting.
* `RunResult.LocatedApart` — no two entries of one sort share a location.

Main results:

* `RunResult.merge_assoc`, `RunResult.merge_comm_of_locatedApart` — grouping never shows, and the
  order of the operands shows only where they share a location.
* `RunResult.empty_merge`, `RunResult.merge_empty` — what merging with nothing does.
* `merge_is_lawful` — all laws together.
-/

namespace NamingLint

/-! ## Entries -/

/-- The list holds the entries of both lists in order, and those that tie stand as they do from left
to right. -/
structure StablyMerged {α : Type} (cmp : α → α → Ordering) (left right merged : List α) : Prop where
  perm : merged.Perm (left ++ right)
  ordered : merged.Pairwise fun a b => (cmp a b).isLE
  stable : ∀ a, merged.filter (ties cmp a) = (left ++ right).filter (ties cmp a)

/-- Sorting what stands one after the other merges it stably. -/
theorem stablyMerged_sortBy {α : Type} {cmp : α → α → Ordering} [Std.TransCmp cmp]
    (left right : List α) : StablyMerged cmp left right (sortBy cmp (left ++ right)) where
  perm := List.mergeSort_perm (left ++ right) _
  ordered := pairwise_sortBy (left ++ right)
  stable a := filter_ties_sortBy a (left ++ right)

/-! ## Tallies and gaps -/

/-- Every kind is present. -/
def TallySet.IsFull (s : TallySet) : Prop :=
  ∀ k, (s.get? k).isSome

theorem TallySet.isFull_zero : zero.IsFull := by
  intro k
  rw [get?_zero]
  rfl

/-- Adding nothing to a full set changes nothing. A kind that is lacking would come out as zero. -/
theorem TallySet.IsFull.merge_zero {s : TallySet} (hs : s.IsFull) : s.merge zero = s := by
  apply ext_get?
  intro k
  obtain ⟨t, ht⟩ := Option.isSome_iff_exists.mp (hs k)
  rw [get?_merge, get?_zero, ht]
  show some (t.add Tally.zero) = some t
  rw [Tally.add_zero]

namespace RunResult

/-! ## Grouping -/

/-- Sorting twice is sorting once. -/
theorem sort_sort (r : RunResult) : r.sort.sort = r.sort := by
  -- sorting is stable, so a sorted list has the tie classes it had before
  have hv : Violation.sorted (Violation.sorted r.violations) = Violation.sorted r.violations :=
    sortBy_eq_of_ties fun v => filter_ties_sortBy v r.violations
  have hf : Finding.sorted (Finding.sorted r.findings) = Finding.sorted r.findings :=
    sortBy_eq_of_ties fun f => filter_ties_sortBy f r.findings
  unfold sort
  rw [hv, hf]

/-- Merging is associative: either way the entries of all three are sorted once. -/
theorem merge_assoc (r s t : RunResult) : (r.merge s).merge t = r.merge (s.merge t) := by
  calc (r.merge s).merge t = ((r.append s).sort.append t).sort := rfl
    _ = ((r.append s).append t).sort := sort_append_congr (sort_sort _) rfl
    _ = (r.append (s.append t)).sort := by rw [append_assoc]
    _ = (r.append (s.append t).sort).sort := sort_append_congr rfl (sort_sort _).symm
    _ = r.merge (s.merge t) := rfl

/-! ## Changing places -/

/-- No violation of one result has the location of one of the other, and no finding has. Paths with
the same components are the same path here, however they are written. -/
structure LocatedApart (r s : RunResult) : Prop where
  violations : ∀ v ∈ r.violations, ∀ w ∈ s.violations, v.location.compare w.location ≠ .eq
  findings : ∀ f ∈ r.findings, ∀ g ∈ s.findings, f.location.compare g.location ≠ .eq

/-- Entries that tie have one location. -/
theorem LocatedApart.apart {r s : RunResult} (h : r.LocatedApart s) : r.Apart s where
  violations v hv w hw htie := by
    rw [Violation.compare, Ordering.then_eq_eq] at htie
    exact h.violations v hv w hw htie.1
  findings f hf g hg htie := by
    rw [Finding.compare, Ordering.then_eq_eq] at htie
    exact h.findings f hf g hg htie.1

/-- Results whose entries stand in different places are merged in either order. -/
theorem merge_comm_of_locatedApart {r s : RunResult} (h : r.LocatedApart s) :
    r.merge s = s.merge r :=
  sort_append_comm h.apart

/-! ## Nothing -/

/-- The empty result changes nothing but the order of entries. -/
theorem merge_empty {r : RunResult} (hr : r.tallies.IsFull) : r.merge empty = r.sort := by
  have happend : r.append empty = r := by
    unfold append empty
    simp only [hr.merge_zero, GapSet.union_empty, List.append_nil, Nat.add_zero]
  unfold merge
  rw [happend]

/-- The empty result is neutral on the left too, since it stands nowhere. -/
theorem empty_merge {r : RunResult} (hr : r.tallies.IsFull) : empty.merge r = r.sort := by
  have happart : empty.LocatedApart r := ⟨by simp [empty], by simp [empty]⟩
  rw [merge_comm_of_locatedApart happart, merge_empty hr]

/-! ## Laws -/

/-- Merging is associative on all results. It is commutative on results that share no location. The
result without anything is neutral but for sorting, on either side of a result that counts every
kind. And the entries of both operands come out in order, with ties as they stood from left to
right. -/
theorem merge_is_lawful :
    (∀ r s t : RunResult, (r.merge s).merge t = r.merge (s.merge t)) ∧
    (∀ r s : RunResult, r.LocatedApart s → r.merge s = s.merge r) ∧
    (∀ r : RunResult, (∀ k, (r.tallies.get? k).isSome) →
      empty.merge r = { r with
        violations := Violation.sorted r.violations, findings := Finding.sorted r.findings } ∧
      r.merge empty = { r with
        violations := Violation.sorted r.violations, findings := Finding.sorted r.findings }) ∧
    (∀ r s : RunResult,
      StablyMerged Violation.compare r.violations s.violations (r.merge s).violations ∧
      StablyMerged Finding.compare r.findings s.findings (r.merge s).findings) := by
  refine ⟨merge_assoc, fun r s h => merge_comm_of_locatedApart h, ?_, ?_⟩
  · intro r hr
    exact ⟨empty_merge hr, merge_empty hr⟩
  · intro r s
    exact ⟨stablyMerged_sortBy r.violations s.violations, stablyMerged_sortBy r.findings s.findings⟩

/-- Two violations in one place, of different kinds, that tie. -/
def tiedNames : RunResult :=
  { empty with
    violations :=
      [⟨"b_c", .functions, .camel, ⟨⟨"/p/b.ts"⟩, 2⟩⟩, ⟨"b_c", .bindings, .camel, ⟨⟨"/p//b.ts"⟩, 2⟩⟩] }

/-- One violation in the same file, on another line. -/
def otherName : RunResult :=
  { empty with violations := [⟨"a_b", .bindings, .camel, ⟨⟨"/p/b.ts"⟩, 1⟩⟩] }

/-- Two violations with one place and name beside a violation elsewhere. -/
theorem tiedNames_merge_otherName :
    tiedNames.LocatedApart otherName ∧ tiedNames.merge otherName = otherName.merge tiedNames ∧
    empty.merge tiedNames = tiedNames.sort := by
  have hfull : ∀ k, (tiedNames.tallies.get? k).isSome := TallySet.isFull_zero
  have hapart : tiedNames.LocatedApart otherName := by
    refine ⟨?_, by decide⟩
    intro v hv w hw
    obtain rfl := List.mem_singleton.mp hw
    rcases List.mem_pair.mp hv with rfl | rfl <;> decide
  obtain ⟨-, hcomm, hneutral, -⟩ := merge_is_lawful
  exact ⟨hapart, hcomm tiedNames otherName hapart, (hneutral tiedNames hfull).1⟩

end RunResult

end NamingLint
