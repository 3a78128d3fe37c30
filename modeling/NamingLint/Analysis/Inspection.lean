import NamingLint.Disk.Basic
import NamingLint.Log
import NamingLint.Result.FileReport
import NamingLint.Rule.Table

/-!
# NamingLint — inspections

An inspection is all that is found out about one file. It has two views.

* `Inspection.report` — what is counted and listed.
* `Inspection.events` — what is logged.
-/

namespace NamingLint

/-- What comes of a configured pair in a file. -/
inductive NameCheck where
  /-- What a rule says. -/
  | judged (rule : Rule) (outcome : Outcome)
  /-- There is no rule. -/
  | unruled (gap : Kind × Convention)

/-- What comes of an enabled construct rule in a file. -/
inductive ConstructCheck where
  | found (findings : List Finding)
  /-- A marker switches the rule off. -/
  | suppressed (rule : ConstructRule) (marker : String)

/-- All that is found out about a file. -/
inductive Inspection where
  /-- The file is no source file. -/
  | notSource
  | unreadable (error : DiskError)
  /-- A marker switches every check off. -/
  | suppressed (file : SourceFile)
  | completed (file : SourceFile) (names : List NameCheck) (constructs : List ConstructCheck)

namespace NameCheck

/-- Looks at the names of a configured pair. -/
def run (t : RuleTable) (f : SourceFile) (pair : Kind × Convention) : NameCheck :=
  match t.lookup pair.1 pair.2 with
  | some rule => judged rule (rule.check f)
  | none => unruled pair

/-- What is said about the names. -/
def outcome : NameCheck → Outcome
  | judged _ o => o
  | unruled _ => .nothing

/-- Adds the counts of a check to those of its kind. -/
def count (s : TallySet) : NameCheck → TallySet
  | judged rule o => s.add rule.kind o.tally
  | unruled _ => s

/-- The event of a tally. Where nothing is wrong, the options may lower its level. -/
def tallyEvent (o : Options) (f : SourceFile) (rule : Rule) (t : Tally) : List Event :=
  let subject := s!"[{rule.convention.label}][{rule.kind.label}] {f.shown.text}"
  if t.total = 0 then []
  else if 0 < t.invalid ∨ !o.silent then
    [⟨.info, s!"{subject}: {t.valid} valid, {t.invalid} invalid"⟩]
  else [⟨.debug, s!"{subject}: {t.valid} valid"⟩]

/-- What is logged about a check. -/
def events (o : Options) (f : SourceFile) : NameCheck → List Event
  | judged rule outcome =>
    rule.events f ++ outcome.violations.map (fun v => ⟨.warn, v.display⟩) ++
      tallyEvent o f rule outcome.tally
  | unruled gap => [⟨.debug, s!"No rule for {gap.1.label} / {gap.2.label}, skipping"⟩]

end NameCheck

namespace ConstructCheck

/-- Runs a construct rule unless the file holds its marker. -/
def run (f : SourceFile) (rule : ConstructRule) : ConstructCheck :=
  match rule.foundMarker? f.stripped with
  | some marker => suppressed rule marker
  | none => found (rule.check f)

/-- What the rule found. -/
def findings : ConstructCheck → List Finding
  | found fs => fs
  | suppressed _ _ => []

/-- What is logged about a check. -/
def events (f : SourceFile) : ConstructCheck → List Event
  | found fs => fs.map fun g => ⟨.warn, g.display⟩
  | suppressed rule marker =>
    [⟨.debug, s!"Skipping {rule.name} in {f.shown.text}: {marker} marker present"⟩]

end ConstructCheck

namespace Inspection

/-- How the analysis of the file ended. -/
def status : Inspection → FileStatus
  | notSource => .notSource
  | unreadable e => .unreadable e.message
  | suppressed _ => .suppressed
  | completed _ _ _ => .completed

/-- What is counted and listed about a file. -/
def report (path : Path) (i : Inspection) : FileReport :=
  let blank := FileReport.blank path (FileType.ofPath path) i.status
  match i with
  | completed _ names constructs =>
    { blank with
      tallies := names.foldl NameCheck.count TallySet.zero
      violations := names.flatMap fun c => c.outcome.violations
      findings := constructs.flatMap ConstructCheck.findings }
  | _ => blank

/-- What is logged about a file. -/
def events (o : Options) (path : Path) (i : Inspection) : List Event :=
  let type := (FileType.ofPath path).label
  let started : Event := ⟨.debug, s!"Analyzing ({type}): {path.text}"⟩
  match i with
  | notSource => [⟨.debug, s!"Not source code ({type}): {path.text}"⟩]
  | unreadable e => [⟨.warn, s!"Error analyzing file {path.text}: {e.message}"⟩]
  | suppressed f =>
    [started, ⟨.info, s!"Skipped {f.shown.text}: {Marker.casing.word} marker present"⟩]
  | completed f names constructs =>
    started :: names.flatMap (NameCheck.events o f) ++
      constructs.flatMap (ConstructCheck.events f)

end Inspection

end NamingLint
