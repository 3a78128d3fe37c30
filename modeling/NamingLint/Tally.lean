import NamingLint.Kind

/-!
# NamingLint — tallies

* `Tally` — how many names passed and how many failed.
* `TallySet` — a tally for each kind. A set read from a file may lack kinds; a lacking kind counts
  as zero and still differs from a kind present at zero.
-/

namespace NamingLint

/-- Counts of names that passed and that failed. -/
@[ext] structure Tally where
  valid : Nat
  invalid : Nat
  deriving DecidableEq, Repr

namespace Tally

/-- Nothing counted. -/
def zero : Tally := ⟨0, 0⟩

/-- Number of names counted. -/
def total (t : Tally) : Nat :=
  t.valid + t.invalid

/-- Counter-wise sum. -/
def add (t u : Tally) : Tally :=
  ⟨t.valid + u.valid, t.invalid + u.invalid⟩

/-- Counts one more name. -/
def record (t : Tally) (passed : Bool) : Tally :=
  if passed then { t with valid := t.valid + 1 } else { t with invalid := t.invalid + 1 }

end Tally

/-- A tally for each kind that is present. -/
@[ext] structure TallySet where
  /-- The tally of a kind, if the kind is present. -/
  entries : PerKind (Option Tally)
  deriving DecidableEq, Repr

namespace TallySet

/-- Every kind present, nothing counted. -/
def zero : TallySet :=
  ⟨PerKind.ofFn fun _ => some Tally.zero⟩

/-- No kind present. -/
def empty : TallySet :=
  ⟨PerKind.ofFn fun _ => none⟩

/-- The tally of a kind if the kind is present. -/
def get? (s : TallySet) (k : Kind) : Option Tally :=
  s.entries.get k

/-- The tally of a kind, zero if the kind is lacking. -/
def get (s : TallySet) (k : Kind) : Tally :=
  (s.get? k).getD Tally.zero

/-- Replaces the tally of a kind. -/
def set (s : TallySet) (k : Kind) (t : Tally) : TallySet :=
  ⟨s.entries.set k (some t)⟩

/-- Adds to the counters of a kind, which is present afterwards. -/
def add (s : TallySet) (k : Kind) (t : Tally) : TallySet :=
  s.set k ((s.get k).add t)

/-- Sum of two optional tallies; a lacking one adds nothing. -/
def addEntry : Option Tally → Option Tally → Option Tally
  | none, u => u
  | some t, none => some t
  | some t, some u => some (t.add u)

/-- Kind-wise sum: a kind is present if either side has it. -/
def merge (s u : TallySet) : TallySet :=
  ⟨PerKind.ofFn fun k => addEntry (s.get? k) (u.get? k)⟩

/-- The kinds present with their tallies, in report order. -/
def rows (s : TallySet) : List (Kind × Tally) :=
  Kind.all.filterMap fun k => (s.get? k).map fun t => (k, t)

/-- Is every counter zero? -/
def isZero (s : TallySet) : Bool :=
  s.rows.all fun r => r.2.total == 0

/-- Number of names that passed, over all kinds. -/
def totalValid (s : TallySet) : Nat :=
  s.rows.foldr (fun r n => r.2.valid + n) 0

/-- Number of names that failed, over all kinds. -/
def totalInvalid (s : TallySet) : Nat :=
  s.rows.foldr (fun r n => r.2.invalid + n) 0

end TallySet

end NamingLint
