import NamingLint.Violation

/-!
# NamingLint — the order of entries

Paths, locations, violations and findings are ordered by total preorders. Paths tie exactly if they
have the same components; violations and findings that tie are located in the same file.

Main results:

* `Path.compare_eq_iff` — paths tie if their components are the same.
* `Violation.components_of_tie`, `Finding.components_of_tie` — ties arise in one file only.
-/

namespace NamingLint

/-- Comparing what is seen of two things by a function. -/
theorem transCmp_on {α β : Type} (f : α → β) (cmp : β → β → Ordering) [Std.TransCmp cmp] :
    Std.TransCmp fun a b => cmp (f a) (f b) where
  eq_swap := Std.OrientedCmp.eq_swap
  isLE_trans := Std.TransCmp.isLE_trans

/-! ## Components -/

instance : Std.TransCmp Component.compare :=
  inferInstanceAs (Std.TransCmp (compareLex (compareOn Component.rank) (compareOn Component.nameD)))

instance : Std.LawfulEqCmp Component.compare where
  eq_of_compare {a b} h := by
    rw [Component.compare, Ordering.then_eq_eq] at h
    have hrank : a.rank = b.rank := Std.LawfulEqOrd.eq_of_compare h.1
    have hname : a.nameD = b.nameD := Std.LawfulEqOrd.eq_of_compare h.2
    cases a <;> cases b <;> simp_all [Component.rank, Component.nameD]

/-! ## Paths -/

/-- Components are compared in order, the first difference decides. -/
theorem Path.compareComponents_eq (as bs : List Component) :
    compareComponents as bs = List.compareLex Component.compare as bs := by
  induction as generalizing bs with
  | nil => cases bs <;> rfl
  | cons a as ih =>
    cases bs with
    | nil => rfl
    | cons b bs => rw [compareComponents, ih, List.compareLex_cons_cons]

instance : Std.TransCmp Path.compare := by
  have heq : Path.compare =
      fun p q => List.compareLex Component.compare p.components q.components := by
    funext p q
    exact Path.compareComponents_eq p.components q.components
  rw [heq]
  exact transCmp_on Path.components (List.compareLex Component.compare)

theorem Path.compare_eq_iff {p q : Path} : p.compare q = .eq ↔ p.components = q.components := by
  rw [compare, compareComponents_eq]
  exact Std.LawfulEqCmp.compare_eq_iff_eq

/-! ## Locations, violations, findings -/

instance : Std.TransCmp Location.compare :=
  have := transCmp_on Location.path Path.compare
  inferInstanceAs (Std.TransCmp
    (compareLex (fun l m => l.path.compare m.path) (compareOn Location.line)))

/-- Locations that tie are in files with the same components. -/
theorem Location.components_of_tie {l m : Location} (h : l.compare m = .eq) :
    l.path.components = m.path.components := by
  rw [compare, Ordering.then_eq_eq] at h
  exact Path.compare_eq_iff.mp h.1

instance : Std.TransCmp Violation.compare :=
  have := transCmp_on Violation.location Location.compare
  inferInstanceAs (Std.TransCmp
    (compareLex (fun v w => v.location.compare w.location) (compareOn Violation.name)))

/-- Violations that tie are located in one file. -/
theorem Violation.components_of_tie {v w : Violation} (h : v.compare w = .eq) :
    v.location.path.components = w.location.path.components := by
  rw [compare, Ordering.then_eq_eq] at h
  exact Location.components_of_tie h.1

instance : Std.TransCmp Finding.compare :=
  have := transCmp_on Finding.location Location.compare
  inferInstanceAs (Std.TransCmp
    (compareLex (fun f g => f.location.compare g.location) (compareOn Finding.rule)))

/-- Findings that tie are located in one file. -/
theorem Finding.components_of_tie {f g : Finding} (h : f.compare g = .eq) :
    f.location.path.components = g.location.path.components := by
  rw [compare, Ordering.then_eq_eq] at h
  exact Location.components_of_tie h.1

end NamingLint
