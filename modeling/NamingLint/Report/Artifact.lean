import NamingLint.Disk.Change
import NamingLint.Form.Result
import NamingLint.Log

/-!
# NamingLint — report directories

A run leaves a directory of JSON files behind. Whatever the directory held before is removed.

* `artifacts` — the names of the files and what they hold.
* `write` — replaces the directory.
-/

namespace NamingLint.Report

open Json (Value)

/-- Name of the report directory in the working directory. -/
def directoryName : String := "reports"

/-- A file of a report. -/
structure Artifact where
  name : String
  value : Value

/-- The text of the file. -/
def Artifact.text (a : Artifact) : Text :=
  a.value.write .pretty

/-- The members of a result that its summary shows. -/
def summaryKeys : List RunResult.Key :=
  [.tallies, .filesChecked, .filesSuppressed, .filesErrored, .filesIgnored, .unimplemented]

/-- The numbers of a result. -/
def summary (r : RunResult) : Value :=
  .object (summaryKeys.map fun k => (k.label, k.form.write (r.toMembers k)))

/-- The files of a report. The report of another tool may be passed along. -/
def artifacts (r : RunResult) (external : Option Value) : List Artifact :=
  [⟨"casing-report.json", Violation.codec.list.write r.violations⟩,
   ⟨"construct-report.json", Finding.codec.list.write r.findings⟩,
   ⟨"summary.json", summary r⟩] ++
  (external.map fun v => ⟨"lint-report.json", v⟩).toList

/-- Why a report cannot be written. -/
inductive Error where
  /-- The directory cannot be replaced. -/
  | directory (path : Path) (error : DiskError)
  /-- A file cannot be written. -/
  | file (path : Path) (error : DiskError)
  deriving DecidableEq, Repr

/-- The wording of an error. -/
def Error.message : Error → String
  | directory path e => s!"Failed to prepare report directory {path.text}: {e.message}"
  | file path e => s!"Failed to write report {path.text}: {e.message}"

/-- Removes what stands at a path, if anything does, and makes an empty directory there. -/
def resetDirectory (dir : Path) : Change Unit := do
  if (← get).hasNode dir then Disk.removeTree dir
  Disk.makeDirectories dir

/-- Something done to a disk for a report. -/
abbrev Writer (α : Type) := ExceptT Error (StateM Disk) α

/-- A change whose failure is put into words. -/
def onDisk {α : Type} (describe : DiskError → Error) (c : Change α) : Writer α :=
  ExceptT.mk do
    match ← c.run with
    | .ok a => return .ok a
    | .error e => return .error (describe e)

/-- Writes a file of a report and returns its path. -/
def writeArtifact (dir : Path) (a : Artifact) : Writer Path := do
  let path := dir.join ⟨a.name⟩
  onDisk (.file path) (Disk.write path a.text)
  return path

/-- Replaces a report directory and returns the paths of its files. -/
def write (dir : Path) (r : RunResult) (external : Option Value) : Writer (List Path) := do
  onDisk (.directory dir) (resetDirectory dir)
  (artifacts r external).mapM (writeArtifact dir)

/-- What is logged about a report that was written. -/
def writtenEvent (dir : Path) : Event :=
  ⟨.info, s!"Reports generated at: {dir.text}"⟩

end NamingLint.Report
