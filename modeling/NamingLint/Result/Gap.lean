import NamingLint.Convention
import NamingLint.Kind

/-!
# NamingLint — gaps

A gap is a kind with the convention configured for it that no rule checks.

* `GapSet` — a set of gaps; `GapSet.toList` lists it by kind, then by convention.
-/

namespace NamingLint

/-- A configured pair that no rule checks. -/
@[ext] structure Gap where
  kind : Kind
  convention : Convention
  deriving DecidableEq, Repr

namespace Gap

/-- The warning about a gap at the start of a run. -/
def warning (g : Gap) : String :=
  s!"{g.convention.label} is not implemented for {g.kind.label}; " ++
    s!"{g.kind.label} identifiers will not be checked"

/-- The note about a gap in a summary. -/
def note (g : Gap) : String :=
  s!"note: {g.convention.label} is not implemented for {g.kind.label}; " ++
    s!"no {g.kind.label} identifiers were checked"

end Gap

/-- A set of gaps. -/
@[ext] structure GapSet where
  /-- Is the pair in the set? -/
  members : PerKind (PerConvention Bool)
  deriving DecidableEq, Repr

namespace GapSet

/-- Is a gap in the set? -/
def has (s : GapSet) (g : Gap) : Bool :=
  (s.members.get g.kind).get g.convention

/-- The set of the gaps that satisfy a test. -/
def ofFn (f : Gap → Bool) : GapSet :=
  ⟨PerKind.ofFn fun k => PerConvention.ofFn fun c => f ⟨k, c⟩⟩

/-- No gaps. -/
def empty : GapSet :=
  ofFn fun _ => false

/-- Adds a gap. -/
def insert (s : GapSet) (g : Gap) : GapSet :=
  ofFn fun h => h = g || s.has h

/-- The gaps of both sets. -/
def union (s t : GapSet) : GapSet :=
  ofFn fun g => s.has g || t.has g

/-- Every possible gap, by kind, then by convention. -/
def candidates : List Gap :=
  Kind.all.flatMap fun k => Convention.all.map fun c => ⟨k, c⟩

/-- The gaps of the set, by kind, then by convention. -/
def toList (s : GapSet) : List Gap :=
  candidates.filter s.has

/-- The set of the gaps in a list. -/
def ofList (gs : List Gap) : GapSet :=
  ofFn fun g => gs.contains g

@[simp] theorem has_ofFn (f : Gap → Bool) (g : Gap) : (ofFn f).has g = f g := by
  simp [ofFn, has]

@[simp] theorem has_empty (g : Gap) : empty.has g = false := by
  simp [empty]

@[simp] theorem has_insert (s : GapSet) (g h : Gap) :
    (s.insert g).has h = (h = g || s.has h) := by
  simp [insert]

@[simp] theorem has_union (s t : GapSet) (g : Gap) : (s.union t).has g = (s.has g || t.has g) := by
  simp [union]

theorem ext_has {s t : GapSet} (h : ∀ g, s.has g = t.has g) : s = t :=
  GapSet.ext (PerKind.ext_get fun k => PerConvention.ext_get fun c => h ⟨k, c⟩)

end GapSet

end NamingLint
