import NamingLint.Result.FileReport
import NamingLint.Result.Gap
import NamingLint.Text.Column

/-!
# NamingLint — results of a run

* `RunResult.absorb` — adds what was found in one file.
* `RunResult.merge` — the result of two runs together, sorted.
* `RunResult.summary` — the table shown at the end of a run.
-/

namespace NamingLint

/-- What a run over many files found. -/
@[ext] structure RunResult where
  tallies : TallySet
  violations : List Violation
  findings : List Finding
  /-- Number of files whose checks ran. -/
  checked : Nat
  /-- Number of files with a marker that switches their checks off. -/
  suppressed : Nat
  /-- Number of files that could not be read. -/
  unreadable : Nat
  /-- Number of files that are no source files. -/
  notSource : Nat
  /-- Configured pairs that no rule checks. -/
  gaps : GapSet
  deriving DecidableEq, Repr

namespace RunResult

/-- Nothing found. -/
def empty : RunResult :=
  ⟨TallySet.zero, [], [], 0, 0, 0, 0, GapSet.empty⟩

/-- Counts a file by how its analysis ended. -/
def count (r : RunResult) : FileStatus → RunResult
  | .completed => { r with checked := r.checked + 1 }
  | .notSource => { r with notSource := r.notSource + 1 }
  | .suppressed => { r with suppressed := r.suppressed + 1 }
  | .unreadable _ => { r with unreadable := r.unreadable + 1 }

/-- Adds what was found in one file. -/
def absorb (r : RunResult) (f : FileReport) : RunResult :=
  { r.count f.status with
    tallies := r.tallies.merge f.tallies
    violations := r.violations ++ f.violations
    findings := r.findings ++ f.findings }

/-- The same result with its entries in order. -/
def sort (r : RunResult) : RunResult :=
  { r with violations := Violation.sorted r.violations, findings := Finding.sorted r.findings }

/-- Both results in one, not yet sorted. -/
def append (r s : RunResult) : RunResult where
  tallies := r.tallies.merge s.tallies
  violations := r.violations ++ s.violations
  findings := r.findings ++ s.findings
  checked := r.checked + s.checked
  suppressed := r.suppressed + s.suppressed
  unreadable := r.unreadable + s.unreadable
  notSource := r.notSource + s.notSource
  gaps := r.gaps.union s.gaps

/-- Both results in one. -/
def merge (r s : RunResult) : RunResult :=
  (r.append s).sort

/-- Did any name break its convention? -/
def hasViolations (r : RunResult) : Bool :=
  !r.violations.isEmpty

/-! ## Summary -/

/-- One row of the summary. -/
def summaryRow (kind valid invalid : String) : String :=
  Text.padEnd 12 kind ++ " " ++ Text.padStart 8 valid ++ " " ++ Text.padStart 8 invalid ++ "\n"

/-- The row of a tally. -/
def tallyRow (kind : String) (t : Tally) : String :=
  summaryRow kind (toString t.valid) (toString t.invalid)

/-- The tallies by kind and in total, a note on each gap, and the numbers of files. -/
def summary (r : RunResult) : String :=
  summaryRow "Kind" "Valid" "Invalid" ++
  String.join (r.tallies.rows.map fun row => tallyRow row.1.label row.2) ++
  tallyRow "total" ⟨r.tallies.totalValid, r.tallies.totalInvalid⟩ ++
  String.join (r.gaps.toList.map fun g => g.note ++ "\n") ++
  s!"{r.checked} file(s) checked, {r.suppressed} suppressed, " ++
  s!"{r.unreadable} unreadable, {r.notSource} not source"

end RunResult

end NamingLint
