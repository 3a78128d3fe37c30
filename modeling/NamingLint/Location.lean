import NamingLint.Path

/-!
# NamingLint — locations

A line of a file. Locations are ordered by path, then by line.
-/

namespace NamingLint

/-- A line of a file; lines count from 1. -/
@[ext] structure Location where
  path : Path
  line : Nat
  deriving DecidableEq, Repr

namespace Location

/-- `PATH:LINE` -/
def display (l : Location) : String :=
  s!"{l.path.text}:{l.line}"

/-- Order by path, then by line. -/
def compare (l m : Location) : Ordering :=
  (l.path.compare m.path).then (Ord.compare l.line m.line)

end Location

end NamingLint
