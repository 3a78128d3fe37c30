import NamingLint.Convention
import NamingLint.Kind
import NamingLint.Location

/-!
# NamingLint — violations and findings

* `Violation` — a name that breaks the convention configured for its kind.
* `Finding` — a forbidden construct.

Both are ordered by location first; `sorted` keeps the order of entries with equal keys.
-/

namespace NamingLint

/-- A name that breaks its convention. -/
@[ext] structure Violation where
  name : String
  kind : Kind
  /-- The convention that the name breaks. -/
  convention : Convention
  location : Location
  deriving DecidableEq, Repr

namespace Violation

/-- One line about the violation. -/
def display (v : Violation) : String :=
  s!"{v.name} ({v.kind.label}, expected {v.convention.label}) at {v.location.display}"

/-- Order by location, then by name. -/
def compare (v w : Violation) : Ordering :=
  (v.location.compare w.location).then (Ord.compare v.name w.name)

/-- The violations in order. -/
def sorted (vs : List Violation) : List Violation :=
  vs.mergeSort fun v w => (v.compare w).isLE

end Violation

/-- A forbidden construct. -/
@[ext] structure Finding where
  /-- Name of the rule that forbids it. -/
  rule : String
  message : String
  location : Location
  deriving DecidableEq, Repr

namespace Finding

/-- One line about the finding. -/
def display (f : Finding) : String :=
  s!"{f.location.display}: [{f.rule}] {f.message}"

/-- Order by location, then by rule. -/
def compare (f g : Finding) : Ordering :=
  (f.location.compare g.location).then (Ord.compare f.rule g.rule)

/-- The findings in order. -/
def sorted (fs : List Finding) : List Finding :=
  fs.mergeSort fun f g => (f.compare g).isLE

end Finding

end NamingLint
