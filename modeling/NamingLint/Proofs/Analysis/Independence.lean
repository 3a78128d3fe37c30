import NamingLint.Proofs.Analysis.Conservation
import NamingLint.Proofs.Order.Entries
import NamingLint.Proofs.Order.StableSort

/-!
# NamingLint — kinds do not meddle with each other

The convention of a kind decides what is counted and listed for that kind, and nothing else. Two runs
of casing rules whose configurations differ in the convention of one kind `k` meet the same files. In
each file the other kinds are checked by the same rules, so counters and entries of other kinds agree
file by file. Entries of kind `k` are mixed with the others in the sorted lists; sorting is stable, so
leaving them out gives the same list from either run.

How many names of kind `k` are counted depends on the detector. A table may have rules for one kind
with different detectors, and then the numbers of the two runs have nothing to do with each other.

* `Config.AgreeOff` — configurations that differ in the convention of one kind at most.
* `FileReport.AgreeOff`, `RunResult.AgreeOff` — what two reports, or two results, have in common.
* `Analyzer.outcomeOf` — what an analyzer says about one kind in a file.
* `RuleTable.SharesDetector` — the rules for a kind all look with the same detector.
* `RuleTable.SwitchedByOptions` — the options alone switch construct rules on.

Main results:

* `tallies_report`, `violations_report` — a report is put together kind by kind.
* `kinds_are_independent` — the two results agree off `k`, and count equally many names of kind `k`
  where both conventions have a rule and these rules share a detector.
* `detectors_decide_totals` — with two detectors they do not.
-/

namespace NamingLint

/-! ## Configurations -/

/-- The configurations differ in the convention of kind `k` at most. -/
structure Config.AgreeOff (k : Kind) (c c' : Config) : Prop where
  conventions : ∀ j, j ≠ k → c.conventionFor j = c'.conventionFor j
  options : c.options = c'.options
  directories : c.ignoredDirectories = c'.ignoredDirectories
  files : c.ignoredFiles = c'.ignoredFiles

/-- Such configurations ignore the same files and directories. -/
theorem Config.AgreeOff.ignoreAlike {k : Kind} {c c' : Config} (h : c.AgreeOff k c') :
    c.IgnoreAlike c' where
  directories name := by rw [ignoresDirectory, ignoresDirectory, h.directories]
  files name := by rw [ignoresFile, ignoresFile, h.files]

/-! ## What is said about one kind -/

namespace Analyzer

/-- What the analyzer says about the names of one kind in a file. -/
def outcomeOf (a : Analyzer) (f : SourceFile) (k : Kind) : Outcome :=
  match (a.config.conventionFor k).bind (a.table.lookup k) with
  | some rule => rule.check f
  | none => .nothing

/-- What is said about a kind is what its rule says, if there is one. -/
theorem outcomeOf_eq_check {a : Analyzer} {k : Kind} {v : Convention} {rule : Rule}
    (hv : a.config.conventionFor k = some v) (hrule : a.table.lookup k v = some rule)
    (f : SourceFile) : a.outcomeOf f k = rule.check f := by
  simp only [outcomeOf, hv, Option.bind_some, hrule]

/-- A casing rule that the table has for a kind lists violations of that kind only. -/
theorem kind_of_mem_outcomeOf {a : Analyzer} (ha : a.table.IsCasing) {f : SourceFile} {k : Kind}
    {v : Violation} (h : v ∈ (a.outcomeOf f k).violations) : v.kind = k := by
  rw [outcomeOf] at h
  split at h
  · rename_i rule hrule
    obtain ⟨c, -, hlookup⟩ := Option.bind_eq_some_iff.mp hrule
    obtain ⟨casing, rfl⟩ := ha rule (List.mem_of_find?_eq_some hlookup)
    obtain ⟨d, -, -, rfl⟩ := CasingRule.mem_violations_check.mp h
    exact (RuleTable.kind_of_lookup hlookup).1
  · simp [Outcome.nothing] at h

/-- The checks of some kinds, in their order. -/
def checksOf (a : Analyzer) (f : SourceFile) (ks : List Kind) : List NameCheck :=
  (ks.filterMap fun k => (a.config.conventionFor k).map fun v => (k, v)).map
    (NameCheck.run a.table f)

/-- Violations come kind by kind, in the order of kinds. -/
theorem violations_checksOf (a : Analyzer) (f : SourceFile) (ks : List Kind) :
    ((a.checksOf f ks).flatMap fun c => c.outcome.violations) =
      ks.flatMap fun k => (a.outcomeOf f k).violations := by
  induction ks with
  | nil => rfl
  | cons k ks ih =>
    rw [List.flatMap_cons, ← ih, checksOf, checksOf]
    -- a kind without a convention is not checked, and one without a rule says nothing
    cases hv : a.config.conventionFor k with
    | none => simp [hv, outcomeOf, Outcome.nothing]
    | some v =>
      cases hrule : a.table.lookup k v with
      | none => simp [hv, hrule, outcomeOf, NameCheck.run, NameCheck.outcome]
      | some rule => simp [hv, hrule, outcomeOf, NameCheck.run, NameCheck.outcome]

/-- Each kind is counted by its own check, if it is among the kinds that are checked. -/
theorem tallies_checksOf (a : Analyzer) (f : SourceFile) {ks : List Kind} (hks : ks.Nodup)
    (s : TallySet) (j : Kind) :
    ((a.checksOf f ks).foldl NameCheck.count s).get j =
      if j ∈ ks then (s.get j).add (a.outcomeOf f j).tally else s.get j := by
  induction ks generalizing s with
  | nil => rfl
  | cons k ks ih =>
    obtain ⟨hk, hks⟩ := List.nodup_cons.mp hks
    -- what the check of `k` adds for `k`, before the other kinds get their turn
    have hstep : ∀ s' : TallySet,
        s'.get j = (if j = k then (s.get k).add (a.outcomeOf f k).tally else s.get j) →
        ((a.checksOf f ks).foldl NameCheck.count s').get j =
          if j ∈ k :: ks then (s.get j).add (a.outcomeOf f j).tally else s.get j := by
      intro s' hs'
      rw [ih hks s', hs']
      by_cases hjk : j = k
      · subst hjk
        simp [hk]
      · simp [hjk]
    cases hv : a.config.conventionFor k with
    | none =>
      have hnone : a.checksOf f (k :: ks) = a.checksOf f ks := by simp [checksOf, hv]
      rw [hnone]
      apply hstep s
      simp only [outcomeOf, hv, Option.bind_none, Outcome.nothing, Tally.add_zero]
      split <;> simp_all
    | some v =>
      have hsome : a.checksOf f (k :: ks) =
          NameCheck.run a.table f (k, v) :: a.checksOf f ks := by simp [checksOf, hv]
      rw [hsome, List.foldl_cons]
      apply hstep
      cases hrule : a.table.lookup k v with
      | none =>
        simp only [NameCheck.run, hrule, NameCheck.count, outcomeOf, hv, Option.bind_some,
          Outcome.nothing, Tally.add_zero]
        split <;> simp_all
      | some rule =>
        obtain ⟨rfl, -⟩ := RuleTable.kind_of_lookup hrule
        simp only [NameCheck.run, hrule, NameCheck.count, TallySet.get_add,
          outcomeOf_eq_check hv hrule]

/-! ## Reports, kind by kind -/

section Completed

variable (a : Analyzer) (f : SourceFile) (path : Path)

/-- The report of a file in which every check ran. -/
def fullReport : FileReport :=
  (Inspection.completed f (a.nameChecks f) (a.constructChecks f)).report path

theorem violations_report : (a.fullReport f path).violations =
    Kind.all.flatMap fun k => (a.outcomeOf f k).violations :=
  a.violations_checksOf f Kind.all

/-- The tally of a kind is what its rule counts; other kinds add nothing to it. -/
theorem tallies_report (j : Kind) : (a.fullReport f path).tallies.get j = (a.outcomeOf f j).tally := by
  have hall : Kind.all.Nodup := by decide
  have h := a.tallies_checksOf f hall TallySet.zero j
  rw [if_pos (Kind.mem_all j), TallySet.get_zero, Tally.zero_add] at h
  exact h

end Completed

end Analyzer

/-! ## Reports and results that agree off a kind -/

/-- Off kind `k`, the reports say the same. -/
structure FileReport.AgreeOff (k : Kind) (f g : FileReport) : Prop where
  status : f.status = g.status
  tallies : ∀ j, j ≠ k → f.tallies.get j = g.tallies.get j
  violations : f.violations.filter (·.kind ≠ k) = g.violations.filter (·.kind ≠ k)
  findings : f.findings = g.findings

/-- Off kind `k`, the results say the same. Order is part of it: of the violations of other kinds,
both have the same list. -/
structure RunResult.AgreeOff (k : Kind) (r s : RunResult) : Prop where
  tallies : ∀ j, j ≠ k → r.tallies.get j = s.tallies.get j
  violations : r.violations.filter (·.kind ≠ k) = s.violations.filter (·.kind ≠ k)
  findings : r.findings = s.findings
  checked : r.checked = s.checked
  suppressed : r.suppressed = s.suppressed
  unreadable : r.unreadable = s.unreadable
  notSource : r.notSource = s.notSource
  gaps : ∀ g, g.kind ≠ k → r.gaps.has g = s.gaps.has g

namespace RunResult.AgreeOff

variable {k : Kind} {r s : RunResult}

/-- Absorbing reports that agree off a kind keeps results in agreement. -/
theorem absorb (h : r.AgreeOff k s) {f g : FileReport} (hfg : f.AgreeOff k g) :
    (r.absorb f).AgreeOff k (s.absorb g) := by
  -- the status alone says which counter moves, and it is the same on both sides
  have hcount : (r.count f.status).AgreeOff k (s.count g.status) := by
    rw [hfg.status]
    cases g.status <;> exact { h with
      checked := by simp [RunResult.count, h.checked]
      suppressed := by simp [RunResult.count, h.suppressed]
      unreadable := by simp [RunResult.count, h.unreadable]
      notSource := by simp [RunResult.count, h.notSource] }
  refine { hcount with tallies := ?_, violations := ?_, findings := ?_ }
  · intro j hj
    rw [tallies_absorb, tallies_absorb, TallySet.get_merge, TallySet.get_merge, h.tallies j hj,
      hfg.tallies j hj]
  · rw [violations_absorb, violations_absorb, List.filter_append, List.filter_append,
      h.violations, hfg.violations]
  · show r.findings ++ f.findings = s.findings ++ g.findings
    rw [h.findings, hfg.findings]

/-- Sorting and leaving out a kind may be done in either order. -/
theorem sort (h : r.AgreeOff k s) : r.sort.AgreeOff k s.sort := by
  refine { h with violations := ?_, findings := ?_ }
  · -- sorting is stable, so the order of what is left does not depend on what is left out
    have hfilter : ∀ vs : List Violation, (Violation.sorted vs).filter (·.kind ≠ k) =
        Violation.sorted (vs.filter (·.kind ≠ k)) := fun vs => filter_sortBy _ vs
    show (Violation.sorted r.violations).filter _ = (Violation.sorted s.violations).filter _
    rw [hfilter, hfilter, h.violations]
  · show Finding.sorted r.findings = Finding.sorted s.findings
    rw [h.findings]

end RunResult.AgreeOff

/-! ## Two runs -/

/-- Of a configuration, only the options matter to whether construct rules are switched on. -/
def RuleTable.SwitchedByOptions (t : RuleTable) : Prop :=
  ∀ r ∈ t.constructs, ∀ c c' : Config, c.options = c'.options → r.isEnabled c = r.isEnabled c'

/-- The rule against `any` is switched on by its option. -/
theorem RuleTable.switchedByOptions_of_noAny {t : RuleTable}
    (h : ∀ r ∈ t.constructs, r = .noAny) : t.SwitchedByOptions := by
  intro r hr c c' hoptions
  rw [h r hr]
  exact congrArg Options.noAny hoptions

namespace Analyzer

/-- The analyzer with another configuration. -/
def withConfig (a : Analyzer) (c : Config) : Analyzer :=
  { a with config := c }

theorem report_of_marker {f : SourceFile} (h : Marker.casing.suppresses f.stripped = true)
    (a : Analyzer) (path : Path) :
    (a.inspectSource f).report path = .blank path (.ofPath path) .suppressed := by
  rw [inspectSource, if_pos h]
  rfl

/-- A file without the marker is checked to the end. -/
theorem report_of_no_marker {f : SourceFile} (h : ¬ Marker.casing.suppresses f.stripped = true)
    (a : Analyzer) (path : Path) : (a.inspectSource f).report path = a.fullReport f path := by
  rw [inspectSource, if_neg h]
  rfl

/-- What is looked into, and how far, does not depend on the configuration. -/
theorem analyzeFile_withConfig (a : Analyzer) (c : Config) (path : Path)
    (content : Except DiskError Text) :
    (∃ status, a.analyzeFile path content = .blank path (.ofPath path) status ∧
      (a.withConfig c).analyzeFile path content = .blank path (.ofPath path) status) ∨
    ∃ f, a.analyzeFile path content = a.fullReport f path ∧
      (a.withConfig c).analyzeFile path content = (a.withConfig c).fullReport f path := by
  unfold analyzeFile inspect
  dsimp only
  split
  · exact .inl ⟨.notSource, rfl, rfl⟩
  · split
    · rename_i e
      exact .inl ⟨.unreadable e.message, rfl, rfl⟩
    · -- the marker is looked for in the text, which is the same for both
      rename_i t
      by_cases hmarker : Marker.casing.suppresses
          (SourceFile.ofContent path a.root (.ofPath path) t).stripped = true
      · exact .inl ⟨_, report_of_marker hmarker a path, report_of_marker hmarker _ path⟩
      · exact .inr ⟨_, report_of_no_marker hmarker a path, report_of_no_marker hmarker _ path⟩

/-- What is said about a kind depends on its own convention only. -/
theorem outcomeOf_withConfig {a : Analyzer} {c : Config} {j : Kind}
    (h : a.config.conventionFor j = c.conventionFor j) (f : SourceFile) :
    (a.withConfig c).outcomeOf f j = a.outcomeOf f j := by
  simp only [outcomeOf, withConfig, h]

section Runs

variable {a : Analyzer} {c : Config} {k : Kind} (ha : a.table.IsCasing)
  (hswitched : a.table.SwitchedByOptions) (h : a.config.AgreeOff k c)

include ha hswitched h

/-- The two reports of a file agree off the kind. -/
theorem agreeOff_fullReport (f : SourceFile) (path : Path) :
    (a.fullReport f path).AgreeOff k ((a.withConfig c).fullReport f path) where
  status := rfl
  tallies j hj := by
    rw [tallies_report, tallies_report, outcomeOf_withConfig (h.conventions j hj)]
  violations := by
    rw [violations_report, violations_report, List.filter_flatMap, List.filter_flatMap]
    congr 1
    funext j
    by_cases hj : j = k
    · -- all that either side has for `k` is left out
      have hnone : ∀ b : Analyzer, b.table.IsCasing →
          (b.outcomeOf f j).violations.filter (·.kind ≠ k) = [] := by
        intro b hb
        rw [List.filter_eq_nil_iff]
        intro v hv
        simp [kind_of_mem_outcomeOf hb hv, hj]
      rw [hnone a ha, hnone (a.withConfig c) ha]
    · rw [outcomeOf_withConfig (h.conventions j hj)]
  findings := by
    -- the same construct rules are switched on
    have henabled : a.table.constructs.filter (·.isEnabled a.config) =
        a.table.constructs.filter (·.isEnabled c) :=
      List.filter_congr fun r hr => hswitched r hr _ _ h.options
    show (a.constructChecks f).flatMap _ = ((a.withConfig c).constructChecks f).flatMap _
    rw [constructChecks, henabled]
    rfl

/-- Two analyses of a file agree on all other kinds, whether it could be read or not. -/
theorem agreeOff_analyzeFile (path : Path) (content : Except DiskError Text) :
    (a.analyzeFile path content).AgreeOff k ((a.withConfig c).analyzeFile path content) := by
  rcases a.analyzeFile_withConfig c path content with ⟨status, hold, hnew⟩ | ⟨f, hold, hnew⟩
  · rw [hold, hnew]
    exact ⟨rfl, fun _ _ => rfl, rfl, rfl⟩
  · rw [hold, hnew]
    exact agreeOff_fullReport ha hswitched h f path

/-- Two runs agree on all other kinds, by induction over the files of the walk. -/
theorem agreeOff_analyzeDirectory (d : Disk) (dir : Path) :
    (a.analyzeDirectory d dir).AgreeOff k ((a.withConfig c).analyzeDirectory d dir) := by
  apply analyzeDirectory_rel (b := a.withConfig c) h.ignoreAlike
  · refine ⟨fun _ _ => rfl, rfl, rfl, rfl, rfl, rfl, rfl, ?_⟩
    intro g hg
    -- a gap of another kind is configured on both sides or on neither
    rw [Bool.eq_iff_iff, a.skipsUnruled_start.gaps, (a.withConfig c).skipsUnruled_start.gaps,
      h.conventions g.kind hg]
    rfl
  · intro path content r s hrs
    exact hrs.absorb (agreeOff_analyzeFile ha hswitched h path content)
  · intro r s hrs
    exact hrs.sort

omit ha hswitched in
/-- A relation of tallies that adds up holds of what two runs count for a kind, if it holds of what
they count in each file. -/
theorem tallies_rel {T : Tally → Tally → Prop} (hzero : T Tally.zero Tally.zero)
    (hadd : ∀ t u t' u', T t u → T t' u' → T (t.add t') (u.add u'))
    (hfile : ∀ f, T (a.outcomeOf f k).tally ((a.withConfig c).outcomeOf f k).tally)
    (d : Disk) (dir : Path) :
    T ((a.analyzeDirectory d dir).tallies.get k)
      (((a.withConfig c).analyzeDirectory d dir).tallies.get k) := by
  apply analyzeDirectory_rel (b := a.withConfig c)
    (R := fun r s => T (r.tallies.get k) (s.tallies.get k)) h.ignoreAlike
  · -- related at the start, and again after each file
    simpa [start, RunResult.empty] using hzero
  · intro path content r s hrs
    rw [RunResult.tallies_absorb, RunResult.tallies_absorb, TallySet.get_merge,
      TallySet.get_merge]
    apply hadd _ _ _ _ hrs
    rcases a.analyzeFile_withConfig c path content with ⟨status, ha, hc⟩ | ⟨f, ha, hc⟩
    · rw [ha, hc]
      simpa [FileReport.blank] using hzero
    · rw [ha, hc, tallies_report, tallies_report]
      exact hfile f
  · exact fun r s hrs => hrs

end Runs

end Analyzer

/-! ## One detector per kind -/

/-- The rules for a kind are casing rules that look with the same detector. -/
def RuleTable.SharesDetector (t : RuleTable) (k : Kind) : Prop :=
  ∃ detector, ∀ r ∈ t.rules, r.kind = k → ∃ c : CasingRule, c.detector = detector ∧ r = c.toRule

/-- Rules that look with the detector of their kind share it. -/
theorem RuleTable.UsesKindDetectors.sharesDetector {t : RuleTable} (h : t.UsesKindDetectors)
    (k : Kind) : t.SharesDetector k := by
  refine ⟨k.detector, ?_⟩
  rintro r hr rfl
  exact h r hr

/-- The casing rule behind a rule that is looked up. -/
theorem RuleTable.exists_casing_of_implements {t : RuleTable} {k : Kind} {detector : Detector}
    (hshares : ∀ r ∈ t.rules, r.kind = k → ∃ c : CasingRule, c.detector = detector ∧ r = c.toRule)
    {v : Convention} (h : t.implements k v = true) :
    ∃ c : CasingRule, c.detector = detector ∧ c.convention = v ∧
      t.lookup k v = some c.toRule := by
  obtain ⟨r, hr⟩ := Option.isSome_iff_exists.mp h
  obtain ⟨hkind, hconvention⟩ := kind_of_lookup hr
  obtain ⟨c, hc, rfl⟩ := hshares r (List.mem_of_find?_eq_some hr) hkind
  exact ⟨c, hc, hconvention, hr⟩

/-! ## Counting the names of a kind -/

/-- No name starts both ways. -/
theorem Convention.isPascal_of_isCamel {name : Text} (h : isCamel name = true) :
    isPascal name = false := by
  cases name with
  | nil => rfl
  | cons c t =>
    -- the first letter cannot be both
    have hlower : decide (c.val ≥ 'a'.val) = true ∧ decide (c.val ≤ 'z'.val) = true :=
      Bool.and_eq_true_iff.mp (Bool.and_eq_true_iff.mp h).1
    have hupper : c.isUpper = false := by
      show decide (c.val ≥ 'A'.val ∧ c.val ≤ 'Z'.val) = false
      rw [decide_eq_true_eq] at hlower
      rw [decide_eq_false_iff_not]
      rintro ⟨-, hle⟩
      exact absurd (UInt32.le_trans hlower.1 hle) (by decide)
    simp [isPascal, hupper]

namespace CasingRule

/-- What is found with one detector is counted as camel case, as Pascal case, or as neither. -/
theorem valid_add_valid_le {r s : CasingRule} (hdetector : r.detector = s.detector)
    (hr : r.convention = .camel) (hs : s.convention = .pascal) (f : SourceFile) :
    (r.check f).tally.valid + (s.check f).tally.valid ≤ (r.check f).tally.total := by
  have hcamel : r.accepts = Convention.isCamel := by
    have h := r.accepts_eq
    rw [hr] at h
    exact (Option.some.inj h).symm
  have hpascal : s.accepts = Convention.isPascal := by
    have h := s.accepts_eq
    rw [hs] at h
    exact (Option.some.inj h).symm
  -- over the same declarations: what is pascal is not camel
  have hle : (s.check f).tally.valid ≤ (r.check f).tally.invalid := by
    rw [check_eq, check_eq]
    show List.countP _ (s.declarations f) ≤ List.countP _ (r.declarations f)
    rw [declarations, declarations, hdetector]
    apply List.countP_mono_left
    intro d _ hd
    rw [passes, hpascal] at hd
    rw [passes, hcamel, Bool.not_eq_true', Bool.eq_false_iff]
    intro hboth
    rw [Convention.isPascal_of_isCamel hboth] at hd
    exact absurd hd (by decide)
  exact Nat.add_le_add_left hle _

end CasingRule

/-! ## Independence -/

/-- Two runs of casing rules whose configurations differ in the convention of kind `k` at most agree in
all that concerns other kinds, in findings, in the numbers of files, and in the gaps of other kinds, if
construct rules are switched on by the options. If both conventions have a rule, and the rules for `k`
look with one detector (as in the standard table and in all tables made from pairs), the runs count
equally many names of kind `k`; and the names in camel case together with those in Pascal case are no
more than that. -/
theorem kinds_are_independent (a : Analyzer) (ha : a.table.IsCasing)
    (hswitched : a.table.SwitchedByOptions) {c : Config} {k : Kind} (h : a.config.AgreeOff k c)
    (d : Disk) (dir : Path) :
    (a.analyzeDirectory d dir).AgreeOff k ((a.withConfig c).analyzeDirectory d dir) ∧
    (a.table.SharesDetector k → ∀ v w, a.config.conventionFor k = some v →
      c.conventionFor k = some w → a.table.implements k v = true →
      a.table.implements k w = true →
        ((a.analyzeDirectory d dir).tallies.get k).total =
          (((a.withConfig c).analyzeDirectory d dir).tallies.get k).total ∧
        (v = .camel → w = .pascal →
          ((a.analyzeDirectory d dir).tallies.get k).valid +
            (((a.withConfig c).analyzeDirectory d dir).tallies.get k).valid ≤
              ((a.analyzeDirectory d dir).tallies.get k).total)) := by
  refine ⟨Analyzer.agreeOff_analyzeDirectory ha hswitched h d dir, ?_⟩
  rintro ⟨detector, hshares⟩ v w hv hw hvrule hwrule
  obtain ⟨r, hrdetector, hrconvention, hr⟩ := RuleTable.exists_casing_of_implements hshares hvrule
  obtain ⟨s, hsdetector, hsconvention, hs⟩ := RuleTable.exists_casing_of_implements hshares hwrule
  -- both rules of the kind look at the same declarations
  have hdetector : r.detector = s.detector := by rw [hrdetector, hsdetector]
  have hrcheck : ∀ f, a.outcomeOf f k = r.check f := Analyzer.outcomeOf_eq_check hv hr
  have hscheck : ∀ f, (a.withConfig c).outcomeOf f k = s.check f :=
    Analyzer.outcomeOf_eq_check (a := a.withConfig c) hw hs
  constructor
  · -- each file has as many declarations under both
    apply Analyzer.tallies_rel h (T := fun t u => t.total = u.total) rfl
    · intro t u t' u' htu htu'
      simp only [Tally.total, Tally.add] at htu htu' ⊢
      omega
    · intro f
      rw [hrcheck, hscheck, r.total_check, s.total_check, CasingRule.declarations, hdetector]
      rfl
  · intro hcamel hpascal
    apply Analyzer.tallies_rel h (T := fun t u => t.valid + u.valid ≤ t.total) (by decide)
    · intro t u t' u' htu htu'
      simp only [Tally.total, Tally.add] at htu htu' ⊢
      omega
    · intro f
      rw [hrcheck, hscheck]
      apply CasingRule.valid_add_valid_le hdetector
      · rw [hrconvention, hcamel]
      · rw [hsconvention, hpascal]

/-- Functions in camel case, variables as told. -/
def variablesAs (v : Convention) : Config :=
  { Config.standard with
    casing := (Casing.unset.set .functions (some .camel)).set .bindings (some v) }

theorem agreeOff_variablesAs (v w : Convention) :
    (variablesAs v).AgreeOff .bindings (variablesAs w) := by
  refine ⟨?_, rfl, rfl, rfl⟩
  intro j hj
  cases j <;> first | rfl | exact absurd rfl hj

/-- Variables in either case; one name is a variable and a function at once, and in neither. -/
def threeVariables : Disk :=
  ⟨[("p", .directory
    [("a.ts", .file (.text "let f_x = y => 1;\nlet Ok = 2;\nlet ok = 3;".toList))])], []⟩

/-- What comes of these files with some rules, if variables are held to a convention. -/
def variablesUnder (t : RuleTable) (v : Convention) : RunResult :=
  (⟨⟨"/p"⟩, variablesAs v, t⟩ : Analyzer).analyzeDirectory threeVariables ⟨"/p"⟩

theorem variables_leave_functions_alone :
    (variablesUnder .standard .camel).AgreeOff .bindings (variablesUnder .standard .pascal) ∧
    ((variablesUnder .standard .camel).tallies.get .bindings).total =
      ((variablesUnder .standard .pascal).tallies.get .bindings).total ∧
    ((variablesUnder .standard .camel).tallies.get .bindings).valid +
      ((variablesUnder .standard .pascal).tallies.get .bindings).valid ≤
        ((variablesUnder .standard .camel).tallies.get .bindings).total ∧
    (variablesUnder .standard .camel).tallies.get .bindings = ⟨1, 2⟩ ∧
    (variablesUnder .standard .pascal).tallies.get .bindings = ⟨1, 2⟩ ∧
    (variablesUnder .standard .camel).tallies.get .functions = ⟨0, 1⟩ := by
  have htable := RuleTable.usesKindDetectors_standard
  obtain ⟨hagree, htotals⟩ := kinds_are_independent ⟨⟨"/p"⟩, variablesAs .camel, .standard⟩
    htable.isCasing (RuleTable.switchedByOptions_of_noAny RuleTable.eq_noAny_of_mem_standard)
    (agreeOff_variablesAs .camel .pascal) threeVariables ⟨"/p"⟩
  obtain ⟨htotal, hvalid⟩ := htotals (htable.sharesDetector .bindings) .camel .pascal rfl rfl
    (by decide) (by decide)
  exact ⟨hagree, htotal, hvalid rfl rfl, by decide, by decide, by decide⟩

/-- The standard rules, but the one for variables in Pascal case looks with a detector that finds
none. -/
def unlikeDetectors : RuleTable :=
  RuleTable.standard.insert
    (CasingRule.mk ⟨"none", .bindings, fun _ => []⟩ .pascal Convention.isPascal rfl)

/-- If rules for one kind look with different detectors, the two runs count different names. -/
theorem detectors_decide_totals :
    unlikeDetectors.IsCasing ∧
    unlikeDetectors.implements .bindings .camel = true ∧
    unlikeDetectors.implements .bindings .pascal = true ∧
    ((variablesUnder unlikeDetectors .camel).tallies.get .bindings).total = 3 ∧
    ((variablesUnder unlikeDetectors .pascal).tallies.get .bindings).total = 0 := by
  refine ⟨?_, by decide, by decide, by decide, by decide⟩
  exact RuleTable.usesKindDetectors_standard.isCasing.insert _

end NamingLint
