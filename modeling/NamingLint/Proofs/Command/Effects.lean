import NamingLint.Command.Run
import NamingLint.Proofs.Analysis.Conservation
import NamingLint.Proofs.Report.WorkingDirectory

/-!
# NamingLint — what a check does

A check reads, prints, and then writes its report. Nothing is printed and nothing changes where it
cannot read what it has to; what is printed does not depend on the report; and the report is all that
changes. A working directory that is gone ends a check that needs it: at once where the root is
relative to it, and otherwise after the result is printed, in place of the report.

* `attempt`, `ReportFails` — the attempt to write a report, and a report that cannot be written.

Main results:

* `checkLoaded_cases` — the ways in which a check ends.
* `outcome_of_check` — exit code, order of effects, and what changes on the disk.
-/

namespace NamingLint.Command

/-- The attempt to write the report of a result in a working directory: how it ends, and the disk
that it leaves behind. -/
def attempt (d : Disk) (cwd : Path) (r : RunResult) (external : Option Json.Value) :
    Except Report.Error (List Path) × Disk :=
  (Report.write (cwd.join ⟨Report.directoryName⟩) r external).run d

/-- A report is asked for, and cannot be written in the working directory. -/
def ReportFails (d : Disk) (o : CheckOptions) (r : RunResult) (external : Option Json.Value) : Prop :=
  o.writesReport = true ∧
    ∃ cwd, d.workingDirectory = .ok cwd ∧ ∃ e, (attempt d cwd r external).1 = .error e

/-! ## Roots -/

/-- Only a root that is relative to a working directory that is gone has no analyzer. -/
theorem build_eq_error {d : Disk} {p : Path} {e : DiskError} (hp : p.isAbsolute = false)
    (hgone : d.workingDirectory = .error e) (config : Config) (table : RuleTable) :
    Analyzer.build d p (some config) table = .error (.disk e) := by
  unfold Analyzer.build Analyzer.rootPath
  rw [hp, hgone]
  dsimp only
  rw [if_neg Bool.false_ne_true]
  split <;> simp_all [Except.map]

/-- An absolute root has an analyzer, and every root while the working directory is there. -/
theorem exists_build_eq_ok {d : Disk} {p : Path}
    (h : p.isAbsolute = true ∨ ∃ cwd, d.workingDirectory = .ok cwd) (config : Config)
    (table : RuleTable) :
    ∃ root, Analyzer.build d p (some config) table = .ok ⟨root, config, table⟩ := by
  unfold Analyzer.build Analyzer.rootPath
  cases hp : p.isAbsolute with
  | true => exact ⟨p, rfl⟩
  | false =>
    -- a relative root is joined to the working directory, which must be there
    obtain ⟨cwd, hcwd⟩ := h.resolve_left (by simp [hp])
    rw [hcwd]
    dsimp only
    rw [if_neg Bool.false_ne_true]
    cases p.same ⟨"."⟩ with
    | true => exact ⟨cwd, rfl⟩
    | false => exact ⟨cwd.join p, rfl⟩

section Loaded

variable {d : Disk} {o : CheckOptions} {config : Config} {a : Analyzer}

/-- Without an analyzer nothing is analysed, so the check fails before anything is printed. -/
theorem checkLoaded_of_error {e : AnalyzerError}
    (hbuild : Analyzer.build d o.path (some config) RuleTable.standard = .error e)
    (external : Option Json.Value) :
    checkLoaded d o config external =
      fail d [.log RuleTable.standardEvent] ⟨"Failed to build analyzer", analyzerCauses e⟩ := by
  unfold checkLoaded
  rw [hbuild]

/-- A check without a report ends once the result is printed. So does one whose report has no
directory to go to, with an error. Any other one does not print anymore, and its exit code tells
whether the report was written. -/
theorem checkLoaded_cases
    (hbuild : Analyzer.build d o.path (some config) RuleTable.standard = .ok a)
    (external : Option Json.Value) :
    (o.writesReport = false ∧ (checkLoaded d o config external).exit = exitCode (a.analyze d) ∧
      (checkLoaded d o config external).effects = announce a d o.format) ∨
    (o.writesReport = true ∧ (∃ e, d.workingDirectory = .error e) ∧
      (checkLoaded d o config external).exit = 1 ∧
      (checkLoaded d o config external).effects = announce a d o.format) ∨
    (o.writesReport = true ∧ ∃ cwd, d.workingDirectory = .ok cwd ∧
      (((∃ paths, (attempt d cwd (a.analyze d) external).1 = .ok paths) ∧
          (checkLoaded d o config external).exit = exitCode (a.analyze d)) ∨
        ((∃ e, (attempt d cwd (a.analyze d) external).1 = .error e) ∧
          (checkLoaded d o config external).exit = 2)) ∧
      ∃ event, (checkLoaded d o config external).effects =
        announce a d o.format ++
          [.change (attempt d cwd (a.analyze d) external).2, .log event]) := by
  unfold checkLoaded
  rw [hbuild]
  dsimp only
  cases o.writesReport with
  | false => exact .inl ⟨rfl, rfl, rfl⟩
  | true =>
    right
    rw [if_pos rfl]
    unfold writeReport
    -- the place of the report is asked for after the result is printed
    cases hcwd : d.workingDirectory with
    | error e => exact .inl ⟨rfl, ⟨e, rfl⟩, rfl, rfl⟩
    | ok cwd =>
      refine .inr ⟨rfl, cwd, rfl, ?_⟩
      dsimp only
      unfold attempt
      split
      · rename_i paths after hrun
        rw [hrun]
        exact ⟨.inl ⟨⟨paths, rfl⟩, rfl⟩, _, rfl⟩
      · rename_i e after hrun
        rw [hrun]
        exact ⟨.inr ⟨⟨e, rfl⟩, rfl⟩, _, rfl⟩

/-- An outcome starts from the disk the command was run on. -/
theorem start_checkLoaded (d : Disk) (o : CheckOptions) (config : Config)
    (external : Option Json.Value) : (checkLoaded d o config external).start = d := by
  unfold checkLoaded
  split
  · rfl
  · dsimp only
    split
    · -- whether the report is written or not
      unfold writeReport
      split
      · rfl
      · dsimp only
        split <;> rfl
    · rfl

/-! ## Order -/

/-- Nothing changes before the result is printed. -/
theorem disk?_of_mem_announce {format : Format} {e : Effect} (h : e ∈ announce a d format) :
    e.disk? = none := by
  unfold announce at h
  simp only [List.cons_append, List.mem_cons, List.mem_append, List.mem_map, List.not_mem_nil,
    or_false] at h
  rcases h with rfl | rfl | ⟨event, -, rfl⟩ | rfl <;> rfl

/-- What is printed is the result. -/
theorem text?_announce (a : Analyzer) (d : Disk) (format : Format) :
    (announce a d format).filterMap Effect.text? = [printResult (a.analyze d) format] := by
  have hlogs : ∀ events : List Event, (events.map Effect.log).filterMap Effect.text? = [] := by
    intro events
    rw [List.filterMap_map]
    exact List.filterMap_eq_nil_iff.mpr fun _ _ => rfl
  unfold announce
  rw [List.filterMap_append, List.filterMap_cons_none rfl, List.filterMap_cons_none rfl, hlogs]
  rfl

/-- The result is printed first, and nothing after it. -/
theorem effects_checkLoaded
    (hbuild : Analyzer.build d o.path (some config) RuleTable.standard = .ok a)
    (external : Option Json.Value) :
    ∃ after, (checkLoaded d o config external).effects = announce a d o.format ++ after ∧
      ∀ e ∈ after, e.text? = none := by
  have hnothing : ∀ e ∈ ([] : List Effect), e.text? = none := fun e he => absurd he List.not_mem_nil
  rcases checkLoaded_cases hbuild external with ⟨-, -, heffects⟩ | ⟨-, -, -, heffects⟩ |
    ⟨-, cwd, -, -, event, heffects⟩
  · exact ⟨[], by rw [heffects, List.append_nil], hnothing⟩
  · exact ⟨[], by rw [heffects, List.append_nil], hnothing⟩
  · -- a change of the disk and a log entry print nothing
    refine ⟨_, heffects, ?_⟩
    intro e he
    simp only [List.mem_cons, List.not_mem_nil, or_false] at he
    rcases he with rfl | rfl <;> rfl

/-- What is printed is the result, in the format that was asked for. -/
theorem stdout_checkLoaded
    (hbuild : Analyzer.build d o.path (some config) RuleTable.standard = .ok a)
    (external : Option Json.Value) :
    (checkLoaded d o config external).stdout = printResult (a.analyze d) o.format := by
  obtain ⟨after, heffects, hafter⟩ := effects_checkLoaded hbuild external
  unfold Outcome.stdout
  rw [heffects, List.filterMap_append, text?_announce, List.filterMap_eq_nil_iff.mpr hafter]
  simp [String.join]

/-! ## Disk and exit code -/

/-- The disk stays as it is, or a report was asked for and the disk is what the attempt to write it
leaves behind. -/
theorem disk_checkLoaded (d : Disk) (o : CheckOptions) (config : Config)
    (external : Option Json.Value) :
    (checkLoaded d o config external).disk = d ∨
      (o.writesReport = true ∧ ∃ cwd r, d.workingDirectory = .ok cwd ∧
        (checkLoaded d o config external).disk = (attempt d cwd r external).2) := by
  cases hbuild : Analyzer.build d o.path (some config) RuleTable.standard with
  | error e =>
    rw [checkLoaded_of_error hbuild]
    exact .inl rfl
  | ok a =>
    -- what is announced leaves the disk alone
    have hshown : (announce a d o.format).filterMap Effect.disk? = [] :=
      List.filterMap_eq_nil_iff.mpr fun e => disk?_of_mem_announce
    unfold Outcome.disk
    rw [start_checkLoaded]
    rcases checkLoaded_cases hbuild external with ⟨-, -, heffects⟩ | ⟨-, -, -, heffects⟩ |
      ⟨ho, cwd, hcwd, -, event, heffects⟩
    · rw [heffects, hshown]
      exact .inl rfl
    · rw [heffects, hshown]
      exact .inl rfl
    · rw [heffects, List.filterMap_append, hshown]
      exact .inr ⟨ho, cwd, a.analyze d, hcwd, rfl⟩

/-- The exit code of an analysis with casing rules tells whether a name fails or a forbidden
construct stands in the tree. -/
theorem exitCode_analyze (ha : a.table.IsCasing) (d : Disk) :
    exitCode (a.analyze d) =
      if 0 < (a.analyze d).tallies.totalInvalid ∨ (a.analyze d).findings ≠ [] then 1 else 0 := by
  have hbalanced : (a.analyze d).Balanced := (a.accounts_analyzeDirectory ha d _).balanced
  have hfailed : failed (a.analyze d) = true ↔
      0 < (a.analyze d).tallies.totalInvalid ∨ (a.analyze d).findings ≠ [] := by
    rw [failed, Bool.or_eq_true, hbalanced.hasViolations_iff]
    simp
  unfold exitCode
  simp only [hfailed]

/-- A report in the working directory changes nothing but its own directory, whether it is written
or not. -/
theorem changesOnly_attempt {cwd : Path} (hproper : Entries.IsProper d.entries)
    (hcwd : d.workingDirectory = .ok cwd) (r : RunResult) (external : Option Json.Value) :
    d.ChangesOnly (attempt d cwd r external).2 (d.cwd ++ [Report.directoryName]) := by
  unfold Disk.workingDirectory at hcwd
  split at hcwd
  · rename_i halive
    cases hcwd
    obtain ⟨es, hes⟩ := Option.isSome_iff_exists.mp halive
    have hname : IsEntryName Report.directoryName := by decide
    cases hlong : Disk.isTooLong ((Disk.pathOf d.cwd).join ⟨Report.directoryName⟩) with
    | false =>
      -- the path of the report names every directory from the root on, so no link is on the way
      have hpins := Disk.pins_join_pathOf (hproper.of_descend hes).1 hname hlong
      exact Report.changesOnly_write hpins halive r external
    | true =>
      have htext : ((Disk.pathOf d.cwd).join ⟨Report.directoryName⟩).text ≠ "" := by
        intro hempty
        rw [Disk.isTooLong, hempty] at hlong
        exact absurd hlong (by decide)
      obtain ⟨e, hrun⟩ := Report.run_write_of_isTooLong htext hlong r external
      rw [attempt, hrun]
      exact .refl d _
  · cases hcwd

end Loaded

/-! ## Checks -/

section Checks

variable {d : Disk} {o : CheckOptions} {config : Config} {external : Option Json.Value}

/-- With its configuration loaded the command goes on to the analysis. -/
theorem check_of_load (h : load d o = .ok (config, external)) :
    check d o = checkLoaded d o config external := by
  unfold check
  rw [h]

theorem check_of_error {f : Fatal} (h : load d o = .error f) : check d o = fail d [] f := by
  unfold check
  rw [h]

theorem exists_load_eq_ok (h : (load d o).toOption.isSome = true) :
    ∃ loaded, load d o = .ok loaded := by
  cases hload : load d o with
  | ok loaded => exact ⟨loaded, rfl⟩
  | error f =>
    rw [hload] at h
    cases h

/-- The configuration is the one of its file or the default, whatever report is loaded besides. -/
theorem loadConfig_of_load (h : load d o = .ok (config, external)) :
    loadConfig d o = .ok config := by
  unfold load at h
  cases hconfig : loadConfig d o with
  | error f =>
    rw [hconfig] at h
    cases h
  | ok c =>
    rw [hconfig] at h
    -- the external report is read behind the configuration
    cases hexternal : o.externalReport with
    | none =>
      simp only [hexternal, bind, Except.bind] at h
      cases h
      rfl
    | some path =>
      simp only [hexternal, bind, Except.bind] at h
      split at h
      · cases h
      · cases h
        rfl

/-- What is printed depends on the tree, the configuration and the format, and on nothing that only
the report depends on. -/
theorem stdout_congr {o' : CheckOptions} {config' : Config} {external' : Option Json.Value}
    (h : load d o = .ok (config, external)) (h' : load d o' = .ok (config', external'))
    (hpath : o'.path = o.path) (hconfig : o'.config = o.config) (hformat : o'.format = o.format) :
    (check d o').stdout = (check d o).stdout := by
  -- the options that may differ are not read by the configuration
  have hsame : loadConfig d o' = loadConfig d o := by
    unfold loadConfig
    rw [hpath, hconfig]
  rw [loadConfig_of_load h, loadConfig_of_load h'] at hsame
  cases hsame
  rw [check_of_load h, check_of_load h']
  cases hbuild : Analyzer.build d o.path (some config) RuleTable.standard with
  | error e =>
    rw [checkLoaded_of_error hbuild, checkLoaded_of_error (o := o') (by rw [hpath]; exact hbuild)]
  | ok a =>
    rw [stdout_checkLoaded hbuild,
      stdout_checkLoaded (o := o') (by rw [hpath]; exact hbuild), hformat]

/-- A report that is asked for and has a directory to go to decides between the exit code of a failed
one and that of the result. -/
theorem exit_checkLoaded {a : Analyzer}
    (hbuild : Analyzer.build d o.path (some config) RuleTable.standard = .ok a)
    (hcwd : o.writesReport = true → ∃ cwd, d.workingDirectory = .ok cwd) :
    (ReportFails d o (a.analyze d) external ∧ (checkLoaded d o config external).exit = 2) ∨
    (¬ReportFails d o (a.analyze d) external ∧
      (checkLoaded d o config external).exit = exitCode (a.analyze d)) := by
  rcases checkLoaded_cases hbuild external with ⟨ho, hexit, -⟩ | ⟨ho, ⟨e, hgone⟩, -⟩ |
    ⟨ho, cwd, hok, ⟨⟨paths, hpaths⟩, hexit⟩ | ⟨hfails, hexit⟩, -⟩
  · exact .inr ⟨fun hfails => by simp [hfails.1] at ho, hexit⟩
  · -- there is a working directory if a report is to be written
    obtain ⟨cwd, hok⟩ := hcwd ho
    rw [hgone] at hok
    cases hok
  · refine .inr ⟨?_, hexit⟩
    rintro ⟨-, cwd', hok', e, he⟩
    cases hok.symm.trans hok'
    rw [hpaths] at he
    cases he
  · exact .inl ⟨⟨ho, cwd, hok, hfails⟩, hexit⟩

/-- What a check leaves alone: all but its report directory. -/
theorem changesOnly_check (hproper : Entries.IsProper d.entries) :
    d.ChangesOnly (check d o).disk (d.cwd ++ [Report.directoryName]) := by
  cases hload : load d o with
  | error f =>
    rw [check_of_error hload]
    exact .refl d _
  | ok loaded =>
    obtain ⟨config, external⟩ := loaded
    rw [check_of_load hload]
    -- the disk is as it was, or as the attempt to write left it
    rcases disk_checkLoaded d o config external with hdisk | ⟨-, cwd, r, hcwd, hdisk⟩
    · rw [hdisk]
      exact .refl d _
    · rw [hdisk]
      exact changesOnly_attempt hproper hcwd r external

/-- A run with the arguments of a check does what the check does; only events are left out. -/
theorem run_of_parse {args : List String} {verbose : Bool}
    (h : Invocation.parse args = .ok ⟨verbose, .check o⟩) :
    (run d args).exit = (check d o).exit ∧ (run d args).stdout = (check d o).stdout ∧
      (run d args).disk = (check d o).disk := by
  have hrun : run d args = Invocation.run d ⟨verbose, .check o⟩ := by
    unfold run
    rw [h]
  -- an effect that is left out neither prints nor changes anything
  have hkept : ∀ {α : Type} (g : Effect → Option α), (∀ event, g (.log event) = none) →
      ∀ effects : List Effect,
        (effects.filter (·.isShownAt (logLevel verbose))).filterMap g = effects.filterMap g := by
    intro α g hg effects
    induction effects with
    | nil => rfl
    | cons e es ih =>
      cases e with
      | log event =>
        rw [List.filter_cons, List.filterMap_cons_none (hg event)]
        split
        · rw [List.filterMap_cons_none (hg event), ih]
        · exact ih
      | print text | change disk =>
        rw [List.filter_cons_of_pos rfl, List.filterMap_cons, List.filterMap_cons, ih]
  refine ⟨by rw [hrun]; rfl, ?_, ?_⟩
  · rw [hrun]
    exact congrArg String.join (hkept Effect.text? (fun _ => rfl) _)
  · rw [hrun]
    unfold Outcome.disk
    rw [show (Invocation.run d ⟨verbose, .check o⟩).effects.filterMap Effect.disk? =
      (check d o).effects.filterMap Effect.disk? from hkept Effect.disk? (fun _ => rfl) _]
    rfl

end Checks

/-- How a check ends and what it does. Where it cannot load what it has to, it does nothing. Without
a report it changes nothing, and with one nothing but the entry of the report directory in the
working directory. A working directory that is gone makes it fail with exit code 1: before anything
is printed where the root is relative, and in place of the report otherwise. In all other cases the
exit code tells a failed report from names that fail and forbidden constructs, and these from a clean
tree. The whole result is printed before anything changes, so it is the same whatever becomes of the
report. A run with the arguments of a check has the exit code, the output and the disk of it. -/
theorem outcome_of_check (d : Disk) (o : CheckOptions) :
    (∀ f, load d o = .error f →
      (check d o).exit = 1 ∧ (check d o).effects = [] ∧ (check d o).stdout = "" ∧
        (check d o).disk = d) ∧
    (o.writesReport = false → (check d o).disk = d) ∧
    (Entries.IsProper d.entries →
      (check d o).disk.cwd = d.cwd ∧
      Entries.AgreeOff (d.cwd ++ [Report.directoryName]) d.entries (check d o).disk.entries) ∧
    (∀ config external, load d o = .ok (config, external) →
      (o.path.isAbsolute = false → ∀ e, d.workingDirectory = .error e →
        (check d o).exit = 1 ∧ (check d o).stdout = "" ∧ (check d o).disk = d) ∧
      ((o.path.isAbsolute = true ∨ ∃ cwd, d.workingDirectory = .ok cwd) →
        ∃ a, Analyzer.build d o.path (some config) RuleTable.standard = .ok a ∧
          (o.writesReport = true → ∀ e, d.workingDirectory = .error e →
            (check d o).exit = 1 ∧ (check d o).disk = d) ∧
          ((o.writesReport = true → ∃ cwd, d.workingDirectory = .ok cwd) →
            (ReportFails d o (a.analyze d) external ∧ (check d o).exit = 2) ∨
            (¬ReportFails d o (a.analyze d) external ∧
              (check d o).exit =
                if 0 < (a.analyze d).tallies.totalInvalid ∨ (a.analyze d).findings ≠ []
                then 1 else 0)) ∧
          ∃ before after, (check d o).effects = before ++ after ∧ (∀ e ∈ before, e.disk? = none) ∧
            (∀ e ∈ after, e.text? = none) ∧
            before.filterMap Effect.text? = [printResult (a.analyze d) o.format]) ∧
      ∀ o' loaded, load d o' = .ok loaded → o'.path = o.path → o'.config = o.config →
        o'.format = o.format → (check d o').stdout = (check d o).stdout) ∧
    ∀ args verbose, Invocation.parse args = .ok ⟨verbose, .check o⟩ →
      (run d args).exit = (check d o).exit ∧ (run d args).stdout = (check d o).stdout ∧
        (run d args).disk = (check d o).disk := by
  refine ⟨?_, ?_, ?_, ?_, fun args verbose hargs => run_of_parse hargs⟩
  · -- nothing is loaded, and nothing is done
    intro f hload
    rw [check_of_error hload]
    exact ⟨rfl, rfl, rfl, rfl⟩
  · -- no report is asked for
    intro ho
    cases hload : load d o with
    | error f =>
      rw [check_of_error hload]
      rfl
    | ok loaded =>
      obtain ⟨config, external⟩ := loaded
      rw [check_of_load hload]
      rcases disk_checkLoaded d o config external with hdisk | ⟨hwrites, -⟩
      · exact hdisk
      · rw [ho] at hwrites
        cases hwrites
  · intro hproper
    have hchanges := changesOnly_check (o := o) hproper
    exact ⟨hchanges.cwd, hchanges.agreeOff⟩
  · intro config external hload
    refine ⟨?_, ?_, fun o' loaded hload' => stdout_congr hload hload'⟩
    · -- the root cannot be told
      intro hrelative e hgone
      rw [check_of_load hload,
        checkLoaded_of_error (build_eq_error hrelative hgone config RuleTable.standard)]
      exact ⟨rfl, rfl, rfl⟩
    · intro hroot
      obtain ⟨root, hbuild⟩ := exists_build_eq_ok hroot config RuleTable.standard
      rw [check_of_load hload]
      refine ⟨_, hbuild, ?_, ?_, ?_⟩
      · intro ho e hgone
        rcases disk_checkLoaded d o config external with hdisk | ⟨-, cwd, r, hok, -⟩
        · rcases checkLoaded_cases hbuild external with ⟨ho', -⟩ | ⟨-, -, hexit, -⟩ |
            ⟨-, cwd, hok, -⟩
          · rw [ho] at ho'
            cases ho'
          · exact ⟨hexit, hdisk⟩
          · rw [hgone] at hok
            cases hok
        · rw [hgone] at hok
          cases hok
      · intro hcwd
        rw [← exitCode_analyze RuleTable.usesKindDetectors_standard.isCasing]
        exact exit_checkLoaded hbuild hcwd
      · obtain ⟨after, heffects, hafter⟩ := effects_checkLoaded hbuild external
        exact ⟨_, after, heffects, fun e => disk?_of_mem_announce, hafter, text?_announce _ d _⟩

/-- A disk with a file where the report directory would go. -/
def blocked : Disk :=
  ⟨[("proj", .directory [("a.ts", .file (.text "class a_b".toList)),
    ("config.json", .file (.text "\x7b\x7d".toList)), ("reports", .file (.text []))])], ["proj"]⟩

/-- A check of the working directory. -/
def checkHere (config : Path) (writesReport : Bool) : CheckOptions :=
  ⟨⟨"."⟩, .json, some config, writesReport, none⟩

theorem outcome_of_blocked :
    (check blocked (checkHere ⟨"missing.json"⟩ true)).exit = 1 ∧
    (check blocked (checkHere ⟨"config.json"⟩ true)).exit = 2 ∧
    (run blocked ["check", "--config", "config.json", "--format", "json"]).exit = 2 ∧
    (check blocked (checkHere ⟨"config.json"⟩ true)).disk.cwd = ["proj"] ∧
    (check blocked (checkHere ⟨"config.json"⟩ false)).disk = blocked ∧
    (check blocked (checkHere ⟨"config.json"⟩ false)).stdout =
      (check blocked (checkHere ⟨"config.json"⟩ true)).stdout := by
  have hmissing : (load blocked (checkHere ⟨"missing.json"⟩ true)).toOption.isNone = true := by
    decide +kernel
  have hproper : Entries.IsProper blocked.entries := by decide +kernel
  have hcwd : blocked.workingDirectory = .ok ⟨"/proj"⟩ := rfl
  have hsome : ∀ w, (load blocked (checkHere ⟨"config.json"⟩ w)).toOption.isSome = true := by
    decide +kernel
  obtain ⟨⟨config, external⟩, hload⟩ := exists_load_eq_ok (hsome true)
  obtain ⟨loaded, hload'⟩ := exists_load_eq_ok (hsome false)
  obtain ⟨-, -, hframe, hends, hruns⟩ := outcome_of_check blocked (checkHere ⟨"config.json"⟩ true)
  obtain ⟨-, hanalyzed, hstdout⟩ := hends config external hload
  obtain ⟨a, -, -, hexit, -⟩ := hanalyzed (.inr ⟨_, hcwd⟩)
  -- a file is no directory to remove
  have hfails : ReportFails blocked (checkHere ⟨"config.json"⟩ true) (a.analyze blocked) external :=
    ⟨rfl, _, hcwd, .directory ⟨"/proj/reports"⟩ .notDirectory, rfl⟩
  have htwo : (check blocked (checkHere ⟨"config.json"⟩ true)).exit = 2 := by
    rcases hexit fun _ => ⟨_, hcwd⟩ with ⟨-, hexit⟩ | ⟨hwritten, -⟩
    · exact hexit
    · exact absurd hfails hwritten
  have hrun := (hruns ["check", "--config", "config.json", "--format", "json"] false rfl).1
  refine ⟨?_, htwo, hrun.trans htwo, (hframe hproper).1, ?_, ?_⟩
  · cases hload : load blocked (checkHere ⟨"missing.json"⟩ true) with
    | ok loaded =>
      rw [hload] at hmissing
      cases hmissing
    | error f => exact ((outcome_of_check _ _).1 f hload).1
  · exact (outcome_of_check blocked (checkHere ⟨"config.json"⟩ false)).2.1 rfl
  · exact hstdout _ loaded hload' rfl rfl rfl

/-- A tree without a name to report, and a working directory that is gone. -/
def astray : Disk :=
  ⟨[("proj", .directory [("a.ts", .file (.text "class A".toList)),
    ("config.json", .file (.text "\x7b\x7d".toList))])], ["gone"]⟩

/-- A check of a root that does not depend on the working directory. -/
def checkThere (writesReport : Bool) : CheckOptions :=
  ⟨⟨"/proj"⟩, .json, some ⟨"/proj/config.json"⟩, writesReport, none⟩

/-- The exit code tells more apart than loading, reports and results. A check that prints a clean
tree fails with exit code 1 once there is no directory for its report, though it does well without
one. And a run whose arguments make no sense ends with exit code 2, whatever could be loaded. -/
theorem exit_codes_tell_more :
    ((load astray (checkThere true)).toOption.isSome = true ∧
      (check astray (checkThere true)).exit = 1 ∧
      (check astray (checkThere true)).stdout = (check astray (checkThere false)).stdout ∧
      (check astray (checkThere false)).exit = 0) ∧
    (load ⟨[], []⟩ ⟨⟨"."⟩, .text, none, true, none⟩).toOption.isNone = true ∧
    (run ⟨[], []⟩ ["check", "--format", "xml"]).exit = 2 := by
  have hsome : ∀ w, (load astray (checkThere w)).toOption.isSome = true := by decide +kernel
  obtain ⟨⟨config, external⟩, hload⟩ := exists_load_eq_ok (hsome true)
  obtain ⟨⟨config', external'⟩, hload'⟩ := exists_load_eq_ok (hsome false)
  refine ⟨⟨hsome true, ?_, ?_, ?_⟩, ?_, ?_⟩
  · decide +kernel
  · exact stdout_congr hload' hload rfl rfl rfl
  · decide +kernel
  · decide +kernel
  · decide +kernel

end NamingLint.Command
