import Mathlib.Data.List.Basic
import NamingLint.Tally

/-!
# NamingLint — adding tallies up

Tallies add up counter by counter, and sets of tallies kind by kind. Adding is associative and
commutative, so it does not matter in which order files are counted.

Main results:

* `get_add`, `get_merge` — the operations on sets, seen through `get`.
* `merge_comm`, `merge_assoc` — the order of counting does not matter.
* `totalInvalid_pos_iff` — the total of failed names is positive if the count of some kind is.
-/

namespace NamingLint

namespace Tally

theorem add_comm (t u : Tally) : t.add u = u.add t := by
  simp only [add, Nat.add_comm]

/-- With `add_comm`: the order in which tallies are added up does not matter. -/
theorem add_assoc (t u v : Tally) : (t.add u).add v = t.add (u.add v) := by
  simp only [add, Nat.add_assoc]

@[simp] theorem zero_add (t : Tally) : zero.add t = t := by
  simp [add, zero]

@[simp] theorem add_zero (t : Tally) : t.add zero = t := by
  simp [add, zero]

@[simp] theorem invalid_add (t u : Tally) : (t.add u).invalid = t.invalid + u.invalid := rfl

@[simp] theorem invalid_zero : zero.invalid = 0 := rfl

end Tally

namespace TallySet

/-! ## Sets through `get?` and `get` -/

/-- A set of tallies is told by what it holds for each kind, kinds that it lacks included. -/
theorem ext_get? {s u : TallySet} (h : ∀ k, s.get? k = u.get? k) : s = u :=
  TallySet.ext (PerKind.ext_get h)

@[simp] theorem get?_zero (k : Kind) : zero.get? k = some Tally.zero := by
  simp [zero, get?]

/-- A kind is in the merged set if one of the two sets has it. -/
@[simp] theorem get?_merge (s u : TallySet) (k : Kind) :
    (s.merge u).get? k = addEntry (s.get? k) (u.get? k) := by
  simp only [merge, get?, PerKind.get_ofFn]

@[simp] theorem get_zero (k : Kind) : zero.get k = Tally.zero := by
  simp [get]

/-- Only the kind that is counted changes. -/
theorem get_add (s : TallySet) (k : Kind) (t : Tally) (j : Kind) :
    (s.add k t).get j = if j = k then (s.get k).add t else s.get j := by
  -- a kind that the set lacks counts as zero, before and after
  simp only [add, set, get, get?, PerKind.get_set]
  split <;> simp

/-- Merged sets count, for each kind, what both count together. -/
@[simp] theorem get_merge (s u : TallySet) (k : Kind) :
    (s.merge u).get k = (s.get k).add (u.get k) := by
  simp only [get, get?_merge]
  -- each set has the kind or lacks it, and lacking it is the same as counting zero
  cases s.get? k <;> cases u.get? k <;> simp [addEntry]

/-! ## Order of counting -/

theorem addEntry_comm (t u : Option Tally) : addEntry t u = addEntry u t := by
  cases t <;> cases u <;> simp [addEntry, Tally.add_comm]

/-- Kinds that a set lacks are no trouble: adding them is associative as well. -/
theorem addEntry_assoc (t u v : Option Tally) :
    addEntry (addEntry t u) v = addEntry t (addEntry u v) := by
  cases t <;> cases u <;> cases v <;> simp [addEntry, Tally.add_assoc]

/-- The order in which two sets of tallies are merged does not matter. -/
theorem merge_comm (s u : TallySet) : s.merge u = u.merge s := by
  apply ext_get?
  intro k
  rw [get?_merge, get?_merge, addEntry_comm]

/-- The bracketing of merges does not matter. -/
theorem merge_assoc (s u v : TallySet) : (s.merge u).merge v = s.merge (u.merge v) := by
  apply ext_get?
  intro k
  simp only [get?_merge, addEntry_assoc]

theorem merge_zero_zero : zero.merge zero = zero := by
  apply ext_get?
  intro k
  simp [addEntry]

/-! ## Totals -/

/-- The total goes over the failed names of every kind; a kind that is lacking adds nothing. -/
theorem totalInvalid_eq (s : TallySet) :
    s.totalInvalid = Kind.all.foldr (fun k n => (s.get k).invalid + n) 0 := by
  rw [totalInvalid, rows]
  induction Kind.all with
  | nil => rfl
  | cons k ks ih =>
    rw [List.foldr_cons, ← ih, get]
    cases h : s.get? k <;> simp [h]

/-- A sum over kinds is positive if one of the kinds counts something. -/
theorem foldr_add_pos_iff (count : Kind → Nat) (ks : List Kind) :
    0 < ks.foldr (fun k n => count k + n) 0 ↔ ∃ k ∈ ks, 0 < count k := by
  induction ks with
  | nil => simp
  | cons k ks ih =>
    rw [List.foldr_cons, Nat.add_pos_iff_pos_or_pos, ih]
    simp

/-- Some name failed if one failed of some kind. -/
theorem totalInvalid_pos_iff (s : TallySet) :
    0 < s.totalInvalid ↔ ∃ k, 0 < (s.get k).invalid := by
  rw [totalInvalid_eq, foldr_add_pos_iff fun k => (s.get k).invalid]
  constructor
  · rintro ⟨k, -, hpos⟩
    exact ⟨k, hpos⟩
  · rintro ⟨k, hpos⟩
    -- the sum goes over all kinds, so it meets this one
    exact ⟨k, Kind.mem_all k, hpos⟩

end TallySet

end NamingLint
