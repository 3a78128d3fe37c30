import NamingLint.Form.Status
import NamingLint.Form.Tally
import NamingLint.Form.Violation
import NamingLint.Result.Run

/-!
# NamingLint — written reports and results
-/

namespace NamingLint

open Json (Codec Members)

/-! ## Reports on files -/

namespace FileReport

/-- The members of a report. -/
inductive Key where
  | path
  | fileType
  | status
  | tallies
  | violations
  | findings
  deriving DecidableEq, Repr

/-- The type of a member. -/
abbrev Member : Key → Type
  | .path => Path
  | .fileType => FileType
  | .status => FileStatus
  | .tallies => TallySet
  | .violations => List Violation
  | .findings => List Finding

/-- The members of a report and their forms. -/
def members : Members Key Member where
  name := "FileReport"
  keys := [.path, .fileType, .status, .tallies, .violations, .findings]
  mem_keys k := by cases k <;> simp
  label
    | .path => "path"
    | .fileType => "fileType"
    | .status => "status"
    | .tallies => "tallies"
    | .violations => "violations"
    | .findings => "findings"
  form
    | .path => Path.codec
    | .fileType => FileType.codec
    | .status => FileStatus.codec (Json.nestingLimit - 1)
    | .tallies => TallySet.codec
    | .violations => Violation.codec.list
    | .findings => Finding.codec.list

/-- A report by its members. -/
def toMembers (r : FileReport) : (k : Key) → Member k
  | .path => r.path
  | .fileType => r.type
  | .status => r.status
  | .tallies => r.tallies
  | .violations => r.violations
  | .findings => r.findings

/-- The form of a report. -/
def codec : Codec FileReport :=
  members.codec.via toMembers fun r =>
    ⟨r .path, r .fileType, r .status, r .tallies, r .violations, r .findings⟩

end FileReport

/-! ## Gaps -/

namespace Gap

/-- The members of a gap. -/
inductive Key where
  | kind
  | convention
  deriving DecidableEq, Repr

/-- The type of a member. -/
abbrev Member : Key → Type
  | .kind => Kind
  | .convention => Convention

/-- The members of a gap and their forms. -/
def members : Members Key Member where
  name := "Unimplemented"
  keys := [.kind, .convention]
  mem_keys k := by cases k <;> simp
  label
    | .kind => "kind"
    | .convention => "convention"
  form
    | .kind => Kind.codec
    | .convention => Convention.codec

/-- A gap by its members. -/
def toMembers (g : Gap) : (k : Key) → Member k
  | .kind => g.kind
  | .convention => g.convention

/-- The form of a gap. -/
def codec : Codec Gap :=
  members.codec.via toMembers fun r => ⟨r .kind, r .convention⟩

end Gap

/-- The form of a set of gaps. -/
def GapSet.codec : Codec GapSet :=
  Gap.codec.list.via toList ofList

/-! ## Results of runs -/

namespace RunResult

/-- The members of a result. -/
inductive Key where
  | tallies
  | violations
  | findings
  | filesChecked
  | filesSuppressed
  | filesErrored
  | filesIgnored
  | unimplemented
  deriving DecidableEq, Repr

/-- The type of a member. -/
abbrev Member : Key → Type
  | .tallies => TallySet
  | .violations => List Violation
  | .findings => List Finding
  | .filesChecked => Nat
  | .filesSuppressed => Nat
  | .filesErrored => Nat
  | .filesIgnored => Nat
  | .unimplemented => GapSet

/-- The label of a member. -/
def Key.label : Key → String
  | tallies => "tallies"
  | violations => "violations"
  | findings => "findings"
  | filesChecked => "filesChecked"
  | filesSuppressed => "filesSuppressed"
  | filesErrored => "filesErrored"
  | filesIgnored => "filesIgnored"
  | unimplemented => "unimplemented"

/-- The form of a member. -/
def Key.form : (k : Key) → Codec (Member k)
  | tallies => TallySet.codec
  | violations => Violation.codec.list
  | findings => Finding.codec.list
  | filesChecked => Codec.count
  | filesSuppressed => Codec.count
  | filesErrored => Codec.count
  | filesIgnored => Codec.count
  | unimplemented => GapSet.codec

/-- The members of a result and their forms. -/
def members : Members Key Member where
  name := "AnalysisResult"
  keys :=
    [.tallies, .violations, .findings, .filesChecked, .filesSuppressed, .filesErrored,
     .filesIgnored, .unimplemented]
  mem_keys k := by cases k <;> simp
  label := Key.label
  form := Key.form

/-- A result by its members. -/
def toMembers (r : RunResult) : (k : Key) → Member k
  | .tallies => r.tallies
  | .violations => r.violations
  | .findings => r.findings
  | .filesChecked => r.checked
  | .filesSuppressed => r.suppressed
  | .filesErrored => r.unreadable
  | .filesIgnored => r.notSource
  | .unimplemented => r.gaps

/-- The form of a result. -/
def codec : Codec RunResult :=
  members.codec.via toMembers fun r =>
    ⟨r .tallies, r .violations, r .findings, r .filesChecked, r .filesSuppressed,
     r .filesErrored, r .filesIgnored, r .unimplemented⟩

end RunResult

end NamingLint
