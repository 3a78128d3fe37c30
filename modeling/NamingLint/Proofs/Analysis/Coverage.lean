import Mathlib.Data.List.Induction
import NamingLint.Proofs.Analysis.Collect
import NamingLint.Proofs.Disk.Listing

/-!
# NamingLint — what a run is made of

A run over a directory is made of one report for each file that its walk covers, and of nothing
else. Which files these are is told by the tree, the two ignore lists, and the directories that can be
listed: what is below a directory that cannot be listed is passed over. A file whose checks did not
run leaves one mark in one counter; all else that a result holds comes from the files whose checks
ran.

The walk meets the files in the order in which directories list them, and that order is the file
system's. Entries are sorted by location and name only, so different entries may tie; but if rules
place what they report in the file they are looking at, entries that tie are of one file, and a file
is absorbed in one piece.

* `RunResult.AddsUp` — the counters, tallies and entries of a result are those of some reports.

Main results:

* `AddsUp.absorb`, `AddsUp.foldl_absorb` — what absorbing report after report adds up to.
* `analyzeDirectory_covers_once` — every file that is covered is in the result, once.
* `locked_directories_are_passed_over` — files below a directory that cannot be listed are not.
* `analyzeDirectory_eq_of_relisted` — the order of listings does not show in the result.
* `order_of_listings_shows` — unless a rule places what it reports elsewhere.
-/

namespace NamingLint

/-! ## Reports -/

/-- Did every check of the file run? -/
def FileReport.isCompleted (f : FileReport) : Bool :=
  f.status = .completed

/-- Could the file not be read? -/
def FileReport.isUnreadable (f : FileReport) : Bool :=
  match f.status with
  | .unreadable _ => true
  | _ => false

/-- A file whose checks did not run has a blank report. -/
theorem Analyzer.eq_blank_of_not_completed {a : Analyzer} {path : Path}
    {content : Except DiskError Text} (h : (a.analyzeFile path content).isCompleted = false) :
    ∃ status, a.analyzeFile path content = .blank path (.ofPath path) status := by
  rcases a.analyzeFile_cases path content with ⟨status, -, hblank⟩ | ⟨f, -, hfull⟩
  · exact ⟨status, hblank⟩
  · rw [hfull] at h
    simp [FileReport.isCompleted, Inspection.report, Inspection.status, FileReport.blank] at h

/-! ## Adding reports up -/

/-- The tallies of some reports together. -/
def sumTallies (reports : List FileReport) : TallySet :=
  reports.foldl (fun s f => s.merge f.tallies) TallySet.zero

theorem sumTallies_concat (reports : List FileReport) (f : FileReport) :
    sumTallies (reports ++ [f]) = (sumTallies reports).merge f.tallies := by
  simp [sumTallies]

/-- A sum has every kind in it, so adding nothing changes nothing. -/
theorem sumTallies_merge_zero (reports : List FileReport) :
    (sumTallies reports).merge TallySet.zero = sumTallies reports := by
  induction reports using List.reverseRecOn with
  | nil => exact TallySet.merge_zero_zero
  | append_singleton reports f ih =>
    rw [sumTallies_concat, TallySet.merge_assoc, TallySet.merge_comm f.tallies,
      ← TallySet.merge_assoc, ih]

/-- The counters of a result count the reports by how they ended. Tallies and entries are those of
the reports of files whose checks ran. -/
structure RunResult.AddsUp (r : RunResult) (reports : List FileReport) : Prop where
  checked : r.checked = reports.countP (·.status = .completed)
  suppressed : r.suppressed = reports.countP (·.status = .suppressed)
  unreadable : r.unreadable = reports.countP (·.isUnreadable)
  notSource : r.notSource = reports.countP (·.status = .notSource)
  tallies : r.tallies = sumTallies (reports.filter (·.isCompleted))
  violations : r.violations.Perm ((reports.filter (·.isCompleted)).flatMap (·.violations))
  findings : r.findings.Perm ((reports.filter (·.isCompleted)).flatMap (·.findings))

namespace RunResult.AddsUp

variable {r : RunResult} {reports : List FileReport}

/-- Without reports all is zero. -/
theorem start (a : Analyzer) : a.start.AddsUp [] where
  checked := rfl
  suppressed := rfl
  unreadable := rfl
  notSource := rfl
  tallies := rfl
  violations := .nil
  findings := .nil

/-- One report more. A report of a file whose checks did not run is blank, and only counted. -/
theorem absorb (h : r.AddsUp reports) {f : FileReport}
    (hf : f.isCompleted = false → ∃ path type status, f = .blank path type status) :
    (r.absorb f).AddsUp (reports ++ [f]) := by
  have hcounters : (r.absorb f).checked = (reports ++ [f]).countP (·.status = .completed) ∧
      (r.absorb f).suppressed = (reports ++ [f]).countP (·.status = .suppressed) ∧
      (r.absorb f).unreadable = (reports ++ [f]).countP (·.isUnreadable) ∧
      (r.absorb f).notSource = (reports ++ [f]).countP (·.status = .notSource) := by
    simp only [List.countP_append, ← h.checked, ← h.suppressed, ← h.unreadable, ← h.notSource]
    -- how the file ended says which of the four counters moves
    cases hs : f.status <;> simp [RunResult.absorb, RunResult.count, FileReport.isUnreadable, hs]
  obtain ⟨hchecked, hsuppressed, hunreadable, hnotSource⟩ := hcounters
  cases hcompleted : f.isCompleted with
  | true =>
    have hfilter : (reports ++ [f]).filter (·.isCompleted) =
        reports.filter (·.isCompleted) ++ [f] := by simp [hcompleted]
    refine ⟨hchecked, hsuppressed, hunreadable, hnotSource, ?_, ?_, ?_⟩
    · rw [hfilter, sumTallies_concat, ← h.tallies]
      rfl
    · rw [hfilter, List.flatMap_append, List.flatMap_singleton]
      exact h.violations.append_right f.violations
    · rw [hfilter, List.flatMap_append, List.flatMap_singleton]
      exact h.findings.append_right f.findings
  | false =>
    have hfilter : (reports ++ [f]).filter (·.isCompleted) =
        reports.filter (·.isCompleted) := by simp [hcompleted]
    obtain ⟨path, type, status, rfl⟩ := hf hcompleted
    refine ⟨hchecked, hsuppressed, hunreadable, hnotSource, ?_, ?_, ?_⟩
    · rw [hfilter, ← sumTallies_merge_zero, ← h.tallies]
      rfl
    · show (r.violations ++ []).Perm _
      rw [hfilter, List.append_nil]
      exact h.violations
    · show (r.findings ++ []).Perm _
      rw [hfilter, List.append_nil]
      exact h.findings

/-- Report after report. -/
theorem foldl_absorb (h : r.AddsUp reports) {more : List FileReport}
    (hmore : ∀ f ∈ more, f.isCompleted = false → ∃ path type status, f = .blank path type status) :
    (more.foldl RunResult.absorb r).AddsUp (reports ++ more) := by
  induction more generalizing r reports with
  | nil => simpa using h
  | cons f more ih =>
    obtain ⟨hf, hmore⟩ := List.forall_mem_cons.mp hmore
    have hnext := ih (h.absorb hf) hmore
    rwa [List.append_assoc, List.singleton_append] at hnext

/-- Sorting changes no sum. -/
theorem sort (h : r.AddsUp reports) : r.sort.AddsUp reports where
  checked := h.checked
  suppressed := h.suppressed
  unreadable := h.unreadable
  notSource := h.notSource
  tallies := h.tallies
  violations := (List.mergeSort_perm _ _).trans h.violations
  findings := (List.mergeSort_perm _ _).trans h.findings

/-- Every report is counted in exactly one counter. -/
theorem total (h : r.AddsUp reports) :
    r.checked + r.suppressed + r.unreadable + r.notSource = reports.length := by
  rw [h.checked, h.suppressed, h.unreadable, h.notSource]
  clear h
  induction reports with
  | nil => rfl
  | cons f reports ih =>
    rw [List.length_cons, ← ih]
    simp only [List.countP_cons]
    cases hs : f.status <;> simp [FileReport.isUnreadable, hs] <;> omega

end RunResult.AddsUp

/-! ## Coverage -/

namespace Analyzer

/-- The report of a file that some names lead to from a directory. -/
def reportBelow (a : Analyzer) (dir : Path) (f : Named) : FileReport :=
  a.analyzeFile (dir.below f.1) (f.2.readAt (dir.below f.1))

/-- Files are collected by their reports. -/
theorem collect_locate (a : Analyzer) (dir : Path) (files : List Named) :
    a.collect (files.map (Named.locate dir)) =
      (files.map (a.reportBelow dir)).foldl RunResult.absorb a.start := by
  rw [collect, List.foldl_map, List.foldl_map]
  rfl

/-- The reports of the files add up to the result. -/
theorem addsUp_reportBelow (a : Analyzer) (dir : Path) (files : List Named) :
    ((files.map (a.reportBelow dir)).foldl RunResult.absorb a.start).AddsUp
      (files.map (a.reportBelow dir)) := by
  apply (RunResult.AddsUp.start a).foldl_absorb
  intro f hf hnot
  obtain ⟨g, -, rfl⟩ := List.mem_map.mp hf
  obtain ⟨status, hblank⟩ := eq_blank_of_not_completed hnot
  exact ⟨_, _, status, hblank⟩

end Analyzer

/-- A run over a directory absorbs one report for each file that the configuration keeps and whose
directories can all be listed, and no other. So its four counters together are the number of these
files, each file counts in the one that says how it ended, and tallies and entries are those of the
files whose checks ran. -/
theorem analyzeDirectory_covers_once (a : Analyzer) {d : Disk} {root : Path} {es : Entries}
    (hroot : d.directory? root = some es) (hes : Entries.IsProper es) :
    ∃ files : List Named, (files.map Prod.fst).Nodup ∧
      (∀ f, f ∈ files ↔ Entries.Keeps a.config es f ∧ d.ListsWay root f.1.dropLast) ∧
      a.analyzeDirectory d root =
        ((files.map (a.reportBelow root)).foldl RunResult.absorb a.start).sort ∧
      (a.analyzeDirectory d root).checked + (a.analyzeDirectory d root).suppressed +
        (a.analyzeDirectory d root).unreadable + (a.analyzeDirectory d root).notSource =
          files.length ∧
      (a.analyzeDirectory d root).AddsUp (files.map (a.reportBelow root)) := by
  -- the walk sees each file once, so the reports are those of the files seen
  have hresult : a.analyzeDirectory d root = (((Entries.seen a.config root es).map
      (a.reportBelow root)).foldl RunResult.absorb a.start).sort := by
    rw [a.analyzeDirectory_of_directory hroot, a.collect_locate]
  have hsum : (a.analyzeDirectory d root).AddsUp
      ((Entries.seen a.config root es).map (a.reportBelow root)) := by
    rw [hresult]
    exact (a.addsUp_reportBelow root _).sort
  refine ⟨Entries.seen a.config root es, Entries.nodup_seen a.config root hes,
    fun f => Entries.mem_seen_iff hroot hes, hresult, ?_, hsum⟩
  rw [hsum.total, List.length_map]

/-- Variables and functions are to be in camel case. A walk leaves out the files `b.ts` and the
directories `lib` and `dist`. -/
def camelAnalyzer : Analyzer :=
  ⟨⟨"/p"⟩,
    { Config.standard with
      casing := (Casing.unset.set .bindings (some .camel)).set .functions (some .camel)
      ignoredDirectories := ["lib", "dist"]
      ignoredFiles := ["b.ts"] },
    RuleTable.empty.insertPairs [(.bindings, .camel), (.functions, .camel)]⟩

/-- Two files with names that are variables and functions at once. -/
def boundFunctions : Entries :=
  [("x.ts", .file (.text "const X_x = () => 1;".toList)),
    ("w.ts", .file (.text "const W_w = () => 1;".toList))]

/-- A directory with the name of a file that is left out and a file with the name of such a
directory, among a directory that is left out, one that cannot be listed, a link, a suppressed file
and one that is no text. -/
def mixedTree (inner : Entries) : Entries :=
  [("b.ts", .directory inner),
    ("lib", .file (.text "const L_l = 1;".toList)),
    ("dist", .directory [("y.ts", .file (.text "const Y_y = 1;".toList))]),
    ("shut", .locked [("z.ts", .file (.text "const Z_z = 1;".toList))]),
    ("l.ts", .link "b.ts/x.ts"),
    ("s.ts", .file (.text "@ignoreCasing".toList)),
    ("u.ts", .file .binary)]

/-- A disk with nothing but a project. -/
def projectDisk (es : Entries) : Disk :=
  ⟨[("p", .directory es)], []⟩

theorem mixedTree_covers_five :
    ∃ files : List Named, files.length = 5 ∧
      (∀ f, f ∈ files ↔ Entries.Keeps camelAnalyzer.config (mixedTree boundFunctions) f ∧
        (projectDisk (mixedTree boundFunctions)).ListsWay ⟨"/p"⟩ f.1.dropLast) ∧
      (camelAnalyzer.analyzeDirectory (projectDisk (mixedTree boundFunctions)) ⟨"/p"⟩).checked =
        2 := by
  obtain ⟨files, -, hcovers, -, htotal, -⟩ :=
    @analyzeDirectory_covers_once camelAnalyzer (projectDisk (mixedTree boundFunctions)) ⟨"/p"⟩
      (mixedTree boundFunctions) rfl (by decide)
  exact ⟨files, by rw [← htotal]; decide, hcovers, by decide⟩

/-- A file that nothing leaves out is in no counter if the directory that holds it cannot be listed. -/
theorem locked_directories_are_passed_over :
    Entries.Keeps camelAnalyzer.config [("shut", .locked boundFunctions)]
      (["shut", "x.ts"], .text "const X_x = () => 1;".toList) ∧
    camelAnalyzer.analyzeDirectory (projectDisk [("shut", .locked boundFunctions)]) ⟨"/p"⟩ =
      camelAnalyzer.start.sort :=
  ⟨⟨["shut"], "x.ts", boundFunctions, rfl, rfl, rfl, by decide, by decide⟩, rfl⟩

/-! ## The order of listings -/

/-- The result of a directory, entries in their order included, is the same in whatever order the
file system lists the entries of each directory, if rules place what they report in the file that
they are looking at. -/
theorem analyzeDirectory_eq_of_relisted (a : Analyzer) (htable : a.table.ReportsOwnFiles)
    {d d' : Disk} (hd : Entries.IsProper d.entries) (h : d.Relisted d') (dir : Path) :
    a.analyzeDirectory d dir = a.analyzeDirectory d' dir := by
  cases hdir : d.directory? dir with
  | none =>
    rw [Analyzer.analyzeDirectory, Analyzer.analyzeDirectory, h.walk_eq hd a.config hdir]
  | some es =>
    obtain ⟨fs, hdir', hlisted⟩ := h.directory? hd hdir
    have hes := Disk.isProper_of_directory? hd hdir
    have htext := Disk.text_ne_nil_of_directory? hdir
    -- the same files are absorbed in another order, and no two of them share a path
    have hperm : ((Entries.seen a.config dir es).map (Named.locate dir)).Perm
        ((Entries.seen a.config dir fs).map (Named.locate dir)) :=
      (hlisted.perm_seen a.config dir).map _
    rw [a.analyzeDirectory_of_directory hdir, a.analyzeDirectory_of_directory hdir']
    exact Analyzer.sort_collect_perm htable hperm (pairwise_locate htext hes)

/-- The project listed from its last entry to its first, and one directory in it too. -/
theorem relisted_mixedTree :
    (projectDisk (mixedTree boundFunctions)).Relisted
      (projectDisk (mixedTree boundFunctions.reverse).reverse) := by
  have hinner : (Node.directory boundFunctions).Relisted (.directory boundFunctions.reverse) :=
    .directory (.of_perm (List.reverse_perm _).symm)
  have htree : Entries.Relisted (mixedTree boundFunctions)
      (mixedTree boundFunctions.reverse).reverse :=
    .trans (.cons "b.ts" hinner (.refl _)) (.of_perm (List.reverse_perm _).symm)
  exact ⟨.cons "p" (.directory htree) .nil, rfl⟩

theorem mixedTree_order_is_irrelevant :
    camelAnalyzer.table.ReportsOwnFiles ∧
    Entries.IsProper (projectDisk (mixedTree boundFunctions)).entries ∧
    camelAnalyzer.analyzeDirectory (projectDisk (mixedTree boundFunctions)) ⟨"/p"⟩ =
      camelAnalyzer.analyzeDirectory (projectDisk (mixedTree boundFunctions.reverse).reverse)
        ⟨"/p"⟩ ∧
    (camelAnalyzer.analyzeDirectory (projectDisk (mixedTree boundFunctions))
      ⟨"/p"⟩).tallies.totalInvalid = 4 := by
  have htable : camelAnalyzer.table.ReportsOwnFiles :=
    RuleTable.reportsOwnFiles_insertPairs [(.bindings, .camel), (.functions, .camel)]
  exact ⟨htable, by decide, analyzeDirectory_eq_of_relisted camelAnalyzer htable (by decide)
    relisted_mixedTree ⟨"/p"⟩, by decide⟩

/-- Two notes in the same place stay in the order of the files they are about. -/
theorem order_of_listings_shows :
    (projectDisk boundFunctions).Relisted (projectDisk boundFunctions.reverse) ∧
    (signpostAnalyzer.analyzeDirectory (projectDisk boundFunctions) ⟨"/p"⟩).findings.map
      (·.message) = ["/p/x.ts", "/p/w.ts"] ∧
    (signpostAnalyzer.analyzeDirectory (projectDisk boundFunctions.reverse) ⟨"/p"⟩).findings.map
      (·.message) = ["/p/w.ts", "/p/x.ts"] := by
  refine ⟨⟨.cons "p" (.directory (.of_perm (List.reverse_perm _).symm)) .nil, rfl⟩, ?_, ?_⟩
  · rw [Analyzer.findings_of_pairwise rfl (by decide)]
    decide
  · rw [Analyzer.findings_of_pairwise rfl (by decide)]
    decide

end NamingLint
