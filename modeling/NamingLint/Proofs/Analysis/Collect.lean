import NamingLint.Proofs.Analysis.File
import NamingLint.Proofs.Disk.Tree
import NamingLint.Proofs.Result.Merge

/-!
# NamingLint — the order in which files are looked at

The result of a run is made of the files of the walk alone. It can be put together from parts. It
does not depend on the order of the files as long as no two of them have the same path and no rule
reports on one file what it places in another.

Main results:

* `summarize_eq` — a run is a collection of files, sorted.
* `collect_append` — a collection is put together from parts.
* `sort_collect_perm` — the order of the files does not matter.
* `analyzeDirectory_of_directory` — the result of a directory, told by the files below it.
* `analyzeDirectory_of_refuses` — that of a directory that cannot be listed.
* `analyzeDirectory_rel` — what holds of two runs over the same files, from what holds of each file.
-/

namespace NamingLint

/-- No two files that a walk looks at have paths that tie. -/
theorem pairwise_locate {c : Config} {root : Path} {es : Entries} (hroot : root.text.toList ≠ [])
    (hes : Entries.IsProper es) :
    ((Entries.seen c root es).map (Named.locate root)).Pairwise fun f g =>
      f.1.components ≠ g.1.components := by
  rw [List.pairwise_map]
  have hnodup : (Entries.seen c root es).Pairwise fun f g => f.1 ≠ g.1 :=
    List.pairwise_map.mp (Entries.nodup_seen c root hes)
  refine hnodup.imp_of_mem ?_
  intro f g hf hg hne hcomponents
  have hfnames := Entries.isEntryName_of_mem_seen hes hf
  have hgnames := Entries.isEntryName_of_mem_seen hes hg
  exact hne (Path.below_injective hroot hfnames hgnames hcomponents)

namespace Analyzer

/-- Adds a file to a result. -/
def absorbFile (a : Analyzer) (r : RunResult) (f : Located) : RunResult :=
  r.absorb (a.analyzeFile f.1 (f.2.readAt f.1))

/-- What some files add up to. -/
def collect (a : Analyzer) (files : List Located) : RunResult :=
  files.foldl a.absorbFile a.start

/-- Of the visits only the files count. -/
theorem foldl_absorb_eq (a : Analyzer) (visits : List Visit) (r : RunResult) :
    visits.foldl a.absorb r = (visits.filterMap Visit.file?).foldl a.absorbFile r := by
  induction visits generalizing r with
  | nil => rfl
  | cons visit visits ih =>
    rw [List.foldl_cons, ih]
    cases visit with
    | file path content | ignored path | refused path e => rfl

/-- Only files leave a trace. -/
theorem summarize_eq (a : Analyzer) (visits : List Visit) :
    a.summarize visits = (a.collect (visits.filterMap Visit.file?)).sort := by
  rw [summarize, foldl_absorb_eq, collect]

/-! ## Parts -/

/-- The start has no entries, so it may change places with anything. -/
theorem append_start_comm (a : Analyzer) (r : RunResult) :
    r.append a.start = a.start.append r := by
  simp [RunResult.append, start, RunResult.empty, TallySet.merge_comm r.tallies,
    GapSet.union_comm r.gaps]

theorem start_append_start (a : Analyzer) : a.start.append a.start = a.start := by
  simp [RunResult.append, start, RunResult.empty, TallySet.merge_zero_zero, GapSet.union_self]

/-- A result that holds what the start holds still does so with one file more. -/
theorem absorbFile_append_start {a : Analyzer} {r : RunResult} (hr : r.append a.start = r)
    (f : Located) : (a.absorbFile r f).append a.start = a.absorbFile r f := by
  rw [absorbFile, RunResult.absorb_eq_append, RunResult.append_assoc, append_start_comm,
    ← RunResult.append_assoc, hr]

/-- No file takes the rules of the start away. -/
theorem foldl_absorbFile_append_start {a : Analyzer} (files : List Located) {r : RunResult}
    (hr : r.append a.start = r) :
    (files.foldl a.absorbFile r).append a.start = files.foldl a.absorbFile r := by
  induction files generalizing r with
  | nil => exact hr
  | cons f files ih => exact ih (absorbFile_append_start hr f)

/-- Starting a second time adds nothing. -/
theorem collect_append_start (a : Analyzer) (files : List Located) :
    (a.collect files).append a.start = a.collect files :=
  foldl_absorbFile_append_start files a.start_append_start

/-- Files that are added behind a result are added to any part of it that comes last. -/
theorem foldl_absorbFile_append (a : Analyzer) (files : List Located) (r s : RunResult) :
    files.foldl a.absorbFile (r.append s) = r.append (files.foldl a.absorbFile s) := by
  induction files generalizing s with
  | nil => rfl
  | cons f files ih =>
    rw [List.foldl_cons, List.foldl_cons, ← ih, absorbFile, absorbFile, RunResult.append_absorb]

/-- A collection is put together from parts. -/
theorem collect_append (a : Analyzer) (xs ys : List Located) :
    a.collect (xs ++ ys) = (a.collect xs).append (a.collect ys) := by
  calc a.collect (xs ++ ys) = ys.foldl a.absorbFile (a.collect xs) := by
        rw [collect, List.foldl_append, collect]
    _ = ys.foldl a.absorbFile ((a.collect xs).append a.start) := by rw [collect_append_start]
    _ = (a.collect xs).append (a.collect ys) := foldl_absorbFile_append a ys _ _

/-! ## Order -/

theorem violations_collect_singleton (a : Analyzer) (f : Located) :
    (a.collect [f]).violations = (a.analyzeFile f.1 (f.2.readAt f.1)).violations := by
  simp [collect, absorbFile, RunResult.absorb, start, RunResult.empty]

theorem findings_collect_singleton (a : Analyzer) (f : Located) :
    (a.collect [f]).findings = (a.analyzeFile f.1 (f.2.readAt f.1)).findings := by
  simp [collect, absorbFile, RunResult.absorb, start, RunResult.empty]

/-- What is found in files of different paths does not tie: it is placed where it was found. -/
theorem apart_collect_singleton {a : Analyzer} (htable : a.table.ReportsOwnFiles) {f g : Located}
    (h : f.1.components ≠ g.1.components) : (a.collect [f]).Apart (a.collect [g]) where
  violations v hv w hw htie := by
    rw [violations_collect_singleton] at hv hw
    -- a tie needs the same path, and each violation has the path of its file
    have hcomponents := Violation.components_of_tie htie
    rw [path_of_mem_violations htable hv, path_of_mem_violations htable hw] at hcomponents
    exact h hcomponents
  findings v hv w hw htie := by
    rw [findings_collect_singleton] at hv hw
    have hcomponents := Finding.components_of_tie htie
    rw [path_of_mem_findings htable hv, path_of_mem_findings htable hw] at hcomponents
    exact h hcomponents

/-- The order of files does not matter if their paths are different. -/
theorem sort_collect_perm {a : Analyzer} (htable : a.table.ReportsOwnFiles)
    {xs ys : List Located} (h : xs.Perm ys)
    (hpaths : xs.Pairwise fun f g => f.1.components ≠ g.1.components) :
    (a.collect xs).sort = (a.collect ys).sort := by
  induction h with
  | nil => rfl
  | @cons f xs ys _ ih =>
    show (a.collect ([f] ++ xs)).sort = (a.collect ([f] ++ ys)).sort
    rw [collect_append, collect_append]
    exact RunResult.sort_append_congr rfl (ih hpaths.of_cons)
  | swap f g rest =>
    show (a.collect ([g] ++ ([f] ++ rest))).sort = (a.collect ([f] ++ ([g] ++ rest))).sort
    simp only [collect_append, ← RunResult.append_assoc]
    -- two neighbours change places: their files differ, so nothing of one ties with the other
    have hne : g.1.components ≠ f.1.components :=
      List.rel_of_pairwise_cons hpaths List.mem_cons_self
    exact RunResult.sort_append_congr
      (RunResult.sort_append_comm (apart_collect_singleton htable hne)) rfl
  | trans h₁ _ ih₁ ih₂ =>
    -- the paths are still different in between
    have hmiddle := h₁.pairwise hpaths (fun hne => Ne.symm hne)
    rw [ih₁ hpaths, ih₂ hmiddle]

/-! ## Directories -/

/-- Findings that are met in order stay as they are. -/
theorem findings_of_pairwise {a : Analyzer} {d : Disk} {dir : Path} {visits : List Visit}
    (hwalk : d.walk a.config dir = .ok visits)
    (h : (visits.foldl a.absorb a.start).findings.Pairwise fun f g => (f.compare g).isLE) :
    (a.analyzeDirectory d dir).findings = (visits.foldl a.absorb a.start).findings := by
  rw [analyzeDirectory, hwalk]
  exact List.mergeSort_of_pairwise h

/-- The result of a directory is what its files add up to, sorted. -/
theorem analyzeDirectory_of_directory (a : Analyzer) {d : Disk} {dir : Path} {es : Entries}
    (h : d.directory? dir = some es) :
    a.analyzeDirectory d dir =
      (a.collect ((Entries.seen a.config dir es).map (Named.locate dir))).sort := by
  rw [analyzeDirectory, Disk.walk_of_directory a.config h]
  dsimp only
  rw [summarize_eq, Entries.filterMap_visits]

/-- A directory that cannot be listed counts as one without files. -/
theorem analyzeDirectory_of_refuses (a : Analyzer) {d : Disk} {dir : Path} (h : d.Refuses dir) :
    a.analyzeDirectory d dir = (a.collect []).sort := by
  obtain ⟨e, he⟩ := h.walk_eq_error a.config
  rw [analyzeDirectory, he]
  rfl

end Analyzer

/-- A rule that leaves a note about every file it looks at, always in the same place. -/
def ConstructRule.signpost : ConstructRule where
  name := "signpost"
  isEnabled _ := true
  check f := [⟨"signpost", f.path.text, ⟨⟨"/p/index.ts"⟩, 1⟩⟩]

/-- Nothing but that rule. -/
def signpostAnalyzer : Analyzer :=
  ⟨⟨"/p"⟩, .standard, RuleTable.empty.addConstruct .signpost⟩

/-! ## Runs over the same files -/

/-- The configurations have the same ignore lists. -/
structure Config.IgnoreAlike (c c' : Config) : Prop where
  directories : ∀ name, c.ignoresDirectory name = c'.ignoresDirectory name
  files : ∀ name, c.ignoresFile name = c'.ignoresFile name

mutual

/-- Configurations that ignore alike visit the same below a node. -/
theorem Node.visits_congr {c c' : Config} (h : c.IgnoreAlike c') (path : Path) (name : String) :
    ∀ node : Node, node.visits c path name = node.visits c' path name
  | .file content => by simp only [Node.visits, h.files]
  | .link target => by simp only [Node.visits, h.files]
  | .locked es => by simp only [Node.visits, h.directories]
  | .directory es => by simp only [Node.visits, h.directories, Entries.visits_congr h path es]

/-- Configurations that ignore alike visit the same below a directory. -/
theorem Entries.visits_congr {c c' : Config} (h : c.IgnoreAlike c') (dir : Path) :
    ∀ es : Entries, Entries.visits c dir es = Entries.visits c' dir es
  | [] => by simp only [Entries.visits]
  | (name, node) :: es => by
    simp only [Entries.visits, Node.visits_congr h _ name node, Entries.visits_congr h dir es]

end

/-- Of a configuration, a walk looks at the two ignore lists only. -/
theorem Disk.walk_congr {c c' : Config} (h : c.IgnoreAlike c') (d : Disk) (dir : Path) :
    d.walk c dir = d.walk c' dir := by
  have hvisits : ∀ es, Entries.visits c dir es = Entries.visits c' dir es :=
    Entries.visits_congr h dir
  simp only [walk, hvisits]

/-- A relation that holds at the start of two runs over the same files, and is kept by every file and
by sorting, holds of the two results. -/
theorem Analyzer.analyzeDirectory_rel {a b : Analyzer} (halike : a.config.IgnoreAlike b.config)
    {R : RunResult → RunResult → Prop} (hstart : R a.start b.start)
    (hfile : ∀ path content r s, R r s →
      R (r.absorb (a.analyzeFile path content)) (s.absorb (b.analyzeFile path content)))
    (hsort : ∀ r s, R r s → R r.sort s.sort) (d : Disk) (dir : Path) :
    R (a.analyzeDirectory d dir) (b.analyzeDirectory d dir) := by
  -- only a visit to a file changes a result, and `hfile` takes care of it
  have hfold : ∀ (visits : List Visit) (r s : RunResult), R r s →
      R (visits.foldl a.absorb r) (visits.foldl b.absorb s) := by
    intro visits
    induction visits with
    | nil => exact fun r s h => h
    | cons visit visits ih =>
      intro r s h
      rw [List.foldl_cons, List.foldl_cons]
      apply ih
      cases visit with
      | file path content => exact hfile path (content.readAt path) r s h
      | ignored path | refused path e => exact h
  have hsummary : ∀ visits, R (a.summarize visits) (b.summarize visits) :=
    fun visits => hsort _ _ (hfold visits _ _ hstart)
  unfold analyzeDirectory
  rw [Disk.walk_congr halike d dir]
  split
  · exact hsummary _
  · exact hsummary []

/-- What holds at the start of a run, and is kept by every file and by sorting, holds of its result. -/
theorem Analyzer.analyzeDirectory_induction {a : Analyzer} {P : RunResult → Prop}
    (hstart : P a.start)
    (hfile : ∀ path content r, P r → P (r.absorb (a.analyzeFile path content)))
    (hsort : ∀ r, P r → P r.sort) (d : Disk) (dir : Path) : P (a.analyzeDirectory d dir) :=
  analyzeDirectory_rel (R := fun r _ => P r) ⟨fun _ => rfl, fun _ => rfl⟩ hstart
    (fun path content r _ => hfile path content r) (fun r _ => hsort r) d dir

end NamingLint
