import NamingLint.Proofs.Order.Entries
import NamingLint.Proofs.Order.StableSort
import NamingLint.Proofs.Result.Tally
import NamingLint.Result.Run

/-!
# NamingLint — putting results together

Results are put together first (`append`) and sorted after (`sort`). The first is associative but
keeps entries in the order in which they come; after the second the order of the parts shows only
where entries tie.

Main results:

* `sort_append_sort`, `sort_append_congr` — it does not matter if the parts are sorted before.
* `sort_append_comm` — parts whose entries do not tie may change places.
* `absorb_eq_append` — absorbing a file is putting its result behind.
-/

namespace NamingLint

/-! ## Gaps -/

namespace GapSet

/-- The order in which gaps are put together does not matter. -/
theorem union_comm (s t : GapSet) : s.union t = t.union s := by
  apply ext_has
  intro g
  rw [has_union, has_union, Bool.or_comm]

theorem union_assoc (s t u : GapSet) : (s.union t).union u = s.union (t.union u) := by
  apply ext_has
  intro g
  simp only [has_union, Bool.or_assoc]

/-- Runs of one analyzer have the same gaps, and putting them together adds none. -/
theorem union_self (s : GapSet) : s.union s = s := by
  apply ext_has
  intro g
  rw [has_union, Bool.or_self]

theorem union_empty (s : GapSet) : s.union empty = s := by
  apply ext_has
  intro g
  rw [has_union, has_empty, Bool.or_false]

end GapSet

namespace RunResult

/-! ## Parts and order -/

/-- Results that are put together without sorting, with any bracketing. -/
theorem append_assoc (r s t : RunResult) : (r.append s).append t = r.append (s.append t) := by
  simp only [append, TallySet.merge_assoc, GapSet.union_assoc, List.append_assoc, Nat.add_assoc]

/-- Sorting the parts first changes nothing. -/
theorem sort_append_sort (r s : RunResult) : (r.sort.append s.sort).sort = (r.append s).sort := by
  have hv : Violation.sorted (Violation.sorted r.violations ++ Violation.sorted s.violations) =
      Violation.sorted (r.violations ++ s.violations) :=
    sortBy_append_sortBy r.violations s.violations
  have hf : Finding.sorted (Finding.sorted r.findings ++ Finding.sorted s.findings) =
      Finding.sorted (r.findings ++ s.findings) :=
    sortBy_append_sortBy r.findings s.findings
  simp only [sort, append, hv, hf]

/-- Of the parts it matters only what comes of sorting them. -/
theorem sort_append_congr {r r' s s' : RunResult} (hr : r.sort = r'.sort) (hs : s.sort = s'.sort) :
    (r.append s).sort = (r'.append s').sort := by
  rw [← sort_append_sort, hr, hs, sort_append_sort]

/-- No entry of one result ties with one of the other. -/
structure Apart (r s : RunResult) : Prop where
  violations : ∀ v ∈ r.violations, ∀ w ∈ s.violations, v.compare w ≠ .eq
  findings : ∀ f ∈ r.findings, ∀ g ∈ s.findings, f.compare g ≠ .eq

/-- Parts whose entries do not tie may change places. -/
theorem sort_append_comm {r s : RunResult} (h : r.Apart s) :
    (r.append s).sort = (s.append r).sort := by
  have hv : Violation.sorted (r.violations ++ s.violations) =
      Violation.sorted (s.violations ++ r.violations) := sortBy_append_comm h.violations
  have hf : Finding.sorted (r.findings ++ s.findings) =
      Finding.sorted (s.findings ++ r.findings) := sortBy_append_comm h.findings
  simp only [sort, append, hv, hf, TallySet.merge_comm r.tallies, GapSet.union_comm r.gaps,
    Nat.add_comm]

/-! ## Files -/

/-- What one file adds to a result. -/
def ofReport (f : FileReport) : RunResult :=
  { empty.count f.status with
    tallies := f.tallies
    violations := f.violations
    findings := f.findings }

/-- To absorb a report is to append the result that consists of it alone. -/
theorem absorb_eq_append (r : RunResult) (f : FileReport) : r.absorb f = r.append (ofReport f) := by
  unfold absorb ofReport append
  -- the status says which counter goes up by one
  cases f.status <;> simp [count, empty, GapSet.union_empty]

/-- A report may be absorbed before or after another result is put in front. -/
theorem append_absorb (r s : RunResult) (f : FileReport) :
    r.append (s.absorb f) = (r.append s).absorb f := by
  rw [absorb_eq_append, absorb_eq_append, append_assoc]

end RunResult

end NamingLint
