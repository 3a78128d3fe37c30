import NamingLint.Command.Output
import NamingLint.Proofs.Form.RoundTrip
import NamingLint.Proofs.Json.Value
import NamingLint.Proofs.Report.Replace

/-!
# NamingLint — what a report says

The three files of a report hold a result in parts: its violations, its findings, and the rest. The
parts make up the result again, so nothing is lost between a result and its report.

* `Report.summaryMembers` — the form of a summary: a record of the members that it shows.
* `Report.readBack` — the result that the files in a directory make up.

Main results:

* `readBack_eq_some` — a report directory is read back.
* `write_replaces_directory` — what is left on the disk by a report that was written.
* `missing_step_keeps_old_files` — where a path steps back from a directory that is missing, an old
  report is not removed.
-/

namespace NamingLint.Report

open Json (Codec Members Value)

/-! ## Summaries -/

/-- The members of a summary and their forms: those of a result. -/
def summaryMembers : Members {k // k ∈ summaryKeys} fun k => RunResult.Member k.1 where
  name := "Summary"
  keys := summaryKeys.attach
  mem_keys := List.mem_attach summaryKeys
  label k := k.1.label
  form k := k.1.form

theorem summary_eq (r : RunResult) :
    summary r = summaryMembers.codec.write fun k => r.toMembers k.1 :=
  rfl

/-- A summary is read back if its members fit. -/
theorem faithful_summary :
    summaryMembers.codec.Faithful fun s => ∀ k, RunResult.Key.Fits k.1 (s k) := by
  -- no member is left out, so all of them are read
  have hlawful : summaryMembers.Lawful fun k => RunResult.Key.Fits k.1 :=
    { labels := by decide
      absent_of_omitted := by simp [summaryMembers]
      fits_absent := by simp [summaryMembers]
      form := fun k => k.1.faithful }
  exact hlawful.faithful

/-! ## Reading a report -/

/-- What a file of a report holds, if it is there and has the form. -/
def decode {α : Type} (d : Disk) (dir : Path) (name : String) (c : Codec α) : Option α := do
  let text ← (d.read (dir.join ⟨name⟩)).toOption
  (c.parse text).toOption

/-- The result that the files in a directory make up. -/
def readBack (d : Disk) (dir : Path) : Option RunResult := do
  let violations ← decode d dir "casing-report.json" Violation.codec.list
  let findings ← decode d dir "construct-report.json" Finding.codec.list
  let s ← decode d dir "summary.json" summaryMembers.codec
  return {
    violations, findings
    tallies := s ⟨.tallies, by decide⟩
    checked := s ⟨.filesChecked, by decide⟩
    suppressed := s ⟨.filesSuppressed, by decide⟩
    unreadable := s ⟨.filesErrored, by decide⟩
    notSource := s ⟨.filesIgnored, by decide⟩
    gaps := s ⟨.unimplemented, by decide⟩ }

section Reading

variable {dir : Path} {place : List String} {disk : Entries → Disk} {r : RunResult}
  {external : Option Value}

/-- A file in the report directory is read through the path of the directory. -/
theorem read_join (h : Slot dir place disk) {es : Entries} {name : String} {t : Text}
    (hname : IsEntryName name) (hshort : Disk.isTooLong (dir.join ⟨name⟩) = false)
    (hfile : es.lookup name = some (.file (.text t))) :
    (disk es).read (dir.join ⟨name⟩) = .ok t := by
  have hentry := entryAt_join (h.leadsTo es) hname hshort
  have hnode : (disk es).entries.nodeAt (place ++ [name]) = some (.file (.text t)) := by
    rw [← Entries.bind_lookup_descend, h.descend es]
    exact hfile
  have hroute := Disk.route_join (Disk.route_eq_ok (h.leadsTo es).accepted) hname hshort
  -- the joined path ends in the name, so it asks for no directory
  have hresolve : (disk es).resolve true (dir.join ⟨name⟩) =
      .ok (.existing (place ++ [name]) (.file (.text t))) := by
    refine Disk.resolve_eq_ok.mpr ⟨_, hroute, ?_⟩
    have hfound := hentry.resolveRoute_file hnode true
    rwa [← (Disk.isAccepted_of_route hroute).2] at hfound
  unfold Disk.read
  rw [Disk.node_eq_ok.mpr ⟨_, hresolve⟩]
  rfl

/-- A file of a report is decoded to what it was written for. -/
theorem decode_artifact {α : Type} {c : Codec α} {fits : α → Prop} (hc : c.ReadsBack fits)
    {x : α} (hx : fits x) (h : Slot dir place disk)
    (hshort : ∀ a ∈ artifacts r external, Disk.isTooLong (dir.join ⟨a.name⟩) = false)
    {name : String} (hmem : ⟨name, c.write x⟩ ∈ artifacts r external) :
    decode (disk (entries r external)) dir name c = some x := by
  have hread := read_join h (isEntryName_of_mem_artifacts hmem) (hshort _ hmem)
    (lookup_entries hmem)
  unfold decode
  rw [hread]
  show (c.parse ((c.write x).write .pretty)).toOption = some x
  rw [hc.parse_write hx]
  rfl

/-- The files of a report make up its result. -/
theorem readBack_eq_some (h : Slot dir place disk)
    (hshort : ∀ a ∈ artifacts r external, Disk.isTooLong (dir.join ⟨a.name⟩) = false)
    (hr : r.Fits) : readBack (disk (entries r external)) dir = some r := by
  -- each part of the result is in one artifact
  have hcasing : ⟨"casing-report.json", Violation.codec.list.write r.violations⟩ ∈
      artifacts r external := by simp [artifacts]
  have hconstruct : ⟨"construct-report.json", Finding.codec.list.write r.findings⟩ ∈
      artifacts r external := by simp [artifacts]
  have hsummary : ⟨"summary.json", summaryMembers.codec.write fun k => r.toMembers k.1⟩ ∈
      artifacts r external := by
    rw [← summary_eq]
    simp [artifacts]
  unfold readBack
  rw [decode_artifact Violation.faithful.list.toReadsBack hr.violations h hshort hcasing,
    decode_artifact Finding.faithful.list.toReadsBack hr.findings h hshort hconstruct,
    decode_artifact faithful_summary.toReadsBack (fun k => hr.toMembers k.1) h hshort hsummary]
  rfl

/-- The report of another tool is passed on as it is. -/
theorem decode_external (h : Slot dir place disk) {v : Value}
    (hshort : ∀ a ∈ artifacts r (some v), Disk.isTooLong (dir.join ⟨a.name⟩) = false)
    {room : Nat} (hv : v.IsPlain room) :
    decode (disk (entries r (some v))) dir "lint-report.json" (Codec.any room) = some v := by
  have hmem : ⟨"lint-report.json", (Codec.any room).write v⟩ ∈ artifacts r (some v) := by
    show (⟨"lint-report.json", v⟩ : Artifact) ∈ artifacts r (some v)
    simp [artifacts]
  exact decode_artifact (Json.readsBack_any room) hv h hshort hmem

/-- What is printed as JSON is read back, the line break at its end left aside. -/
theorem parse_printResult (hr : r.Fits) :
    RunResult.codec.parse (Command.printResult r .json).toList = .ok r := by
  have htext : (Command.printResult r .json).toList =
      (RunResult.codec.write r).write .pretty ++ ['\n'] := by
    simp [Command.printResult, Value.pretty]
  rw [htext]
  exact RunResult.faithful.parse_write_append hr .pretty rfl (Json.stopsNumber_cons (by decide))

end Reading

/-! ## Reports on a disk -/

/-- What a report that was written leaves on the disk, if no `..` of its path steps back from a
directory that is missing once the old report is removed. The path leads to a directory that holds
the files of the report and nothing from before, and the files say what was found: they make up the
result, which is also what is printed as JSON. Elsewhere the disk is as it was, but for the
directories above that were missing; where the path led before, which may have been to a link, is not
elsewhere. -/
theorem write_replaces_directory {d after : Disk} {dir : Path} {r : RunResult}
    {external : Option Value} {paths : List Path} (htext : dir.text ≠ "")
    (hinside : (cleared dir d).StepsBackInside dir) (hr : r.Fits)
    (h : (write dir r external).run d = (.ok paths, after)) :
    (∃ place es, after.resolve true dir = .ok (.existing place (.directory es)) ∧
      es.map Prod.fst = ["casing-report.json", "construct-report.json", "summary.json"] ++
        (external.map fun _ => "lint-report.json").toList ∧
      paths = es.map (fun e => dir.join ⟨e.1⟩) ∧
      ∀ ms, ¬place <+: ms →
        (∀ old node, d.resolve false dir = .ok (.existing old node) → ¬old <+: ms) →
        after.entries.markAt ms = d.entries.markAt ms ∨
          (d.entries.markAt ms = none ∧ after.entries.markAt ms = some .directory ∧
            ms <+: place)) ∧
    after.cwd = d.cwd ∧
    readBack after dir = some r ∧
    RunResult.codec.parse (Command.printResult r .json).toList = .ok r ∧
    ∀ v ∈ external, ∀ room, v.IsPlain room →
      decode after dir "lint-report.json" (Codec.any room) = some v := by
  obtain ⟨place, disk, hslot, hreset, hadds, -, rfl, hshort, rfl⟩ := slot_of_write hinside htext h
  -- the directory holds the entries of the report, and the disk around it is that of the slot
  refine ⟨⟨place, entries r external, ?_, ?_, ?_, ?_⟩, ?_, readBack_eq_some hslot hshort hr,
    parse_printResult hr, ?_⟩
  · exact Disk.resolve_eq_directory_iff.mpr ⟨hslot.leadsTo _, hslot.descend _⟩
  · cases external <;> rfl
  · simp [entries, Artifact.entry]
  · exact fun ms hplace hold => outside_of_write hslot hreset hadds _ hplace hold
  · exact cwd_of_write hslot hreset hadds _
  · rintro v ⟨⟩ room hv
    exact decode_external hslot hshort hv

/-- A disk with an old report. -/
def oldReport : Disk :=
  ⟨[("proj", .directory [("old", .directory [("x.txt", .file (.text ['x']))])])], []⟩

/-- Where a path steps back from a directory that is missing, an old report is not seen, and its
files are left among the new ones. -/
theorem missing_step_keeps_old_files :
    let run := (write ⟨"/proj/missing/../old"⟩ .empty none).run oldReport
    run.1.toOption = some [⟨"/proj/missing/../old/casing-report.json"⟩,
      ⟨"/proj/missing/../old/construct-report.json"⟩, ⟨"/proj/missing/../old/summary.json"⟩] ∧
    (run.2.directory? ⟨"/proj/missing/../old"⟩).map (·.map Prod.fst) =
      some ["x.txt", "casing-report.json", "construct-report.json", "summary.json"] := by
  decide +kernel

/-- A result with a violation. -/
def oneViolation : RunResult :=
  { RunResult.empty with
    tallies := TallySet.zero.add .classes ⟨0, 1⟩
    violations := [⟨"a_b", .classes, .camel, ⟨⟨"/proj/a.ts"⟩, 1⟩⟩]
    checked := 1 }

/-- The report on it, with the report of another tool, written over the old one. -/
def newReport : Except Error (List Path) × Disk :=
  (write ⟨"/proj/old"⟩ oneViolation (some (.array [.number (.int 1)]))).run oldReport

theorem oneViolation_fits : oneViolation.Fits := by
  have hone : 1 ≤ Json.Numeral.greatest := by
    unfold Json.Numeral.greatest
    omega
  exact
    { tallies := by
        intro k t ht
        cases k <;> cases ht <;> first
          | exact ⟨Nat.zero_le _, Nat.zero_le _⟩
          | exact ⟨Nat.zero_le _, hone⟩
      violations := fun v hv => List.mem_singleton.mp hv ▸ hone
      findings := nofun
      checked := hone
      suppressed := Nat.zero_le _
      unreadable := Nat.zero_le _
      notSource := Nat.zero_le _ }

theorem newReport_replaces_oldReport :
    ∃ paths after, newReport = (.ok paths, after) ∧
      (∃ place es, after.resolve true ⟨"/proj/old"⟩ = .ok (.existing place (.directory es)) ∧
        es.map Prod.fst = ["casing-report.json", "construct-report.json", "summary.json",
          "lint-report.json"]) ∧
      readBack after ⟨"/proj/old"⟩ = some oneViolation ∧
      decode after ⟨"/proj/old"⟩ "lint-report.json" (Codec.any 1) =
        some (.array [.number (.int 1)]) := by
  have hinside : (cleared ⟨"/proj/old"⟩ oldReport).StepsBackInside ⟨"/proj/old"⟩ :=
    Disk.stepsBackInside_of_not_mem (by decide)
  have hplain : (Value.array [.number (.int 1)]).IsPlain 1 := by
    simp [Value.IsPlain, Json.Numeral.greatest]
  -- that it is written is computed; what is written follows from the theorem
  have hsome : newReport.1.toOption.isSome = true := by decide +kernel
  rcases hrun : newReport with ⟨result, after⟩
  rw [hrun] at hsome
  cases result with
  | error e => cases hsome
  | ok paths =>
    obtain ⟨⟨place, es, hplace, hnames, -⟩, -, hback, -, hexternal⟩ :=
      write_replaces_directory (by decide) hinside oneViolation_fits hrun
    exact ⟨paths, after, rfl, ⟨place, es, hplace, hnames⟩, hback, hexternal _ rfl 1 hplain⟩

end NamingLint.Report
