import NamingLint.Proofs.Analysis.Collect
import NamingLint.Proofs.Result.Tally

/-!
# NamingLint — counts and entries agree

Counters and entries take separate ways through a run: a casing rule counts a failed name and lists it,
a file adds its counters and appends its entries, and so do runs that are put together. They agree
all the same.

* `RunResult.Balanced` — for every kind, the failed names that are counted are those listed.
* `Analyzer.Accounts` — what holds of the violations of one run.
* `RunResult.Obtained` — results of runs, and what comes of merging and sorting them.

Main results:

* `accounts_analyzeDirectory` — one run of casing rules, by what absorbing one file preserves.
* `tallies_account_for_violations` — every result obtained, however many runs it is made of.
-/

namespace NamingLint

/-! ## Balance -/

/-- The number of violations of a kind. -/
def countKind (k : Kind) (vs : List Violation) : Nat :=
  vs.countP (·.kind = k)

@[simp] theorem countKind_nil (k : Kind) : countKind k [] = 0 := rfl

@[simp] theorem countKind_append (k : Kind) (vs ws : List Violation) :
    countKind k (vs ++ ws) = countKind k vs + countKind k ws :=
  List.countP_append

/-- Violations of one kind count for that kind only. -/
theorem countKind_of_forall {k : Kind} {vs : List Violation} (h : ∀ v ∈ vs, v.kind = k)
    (j : Kind) : countKind j vs = if j = k then vs.length else 0 := by
  rw [countKind]
  split
  · -- all of them, or none
    rename_i hjk
    rw [List.countP_eq_length]
    intro v hv
    simp [h v hv, hjk]
  · rename_i hjk
    rw [List.countP_eq_zero]
    intro v hv
    simpa [h v hv] using Ne.symm hjk

/-- Sorting moves violations and drops none. -/
theorem countKind_sorted (k : Kind) (vs : List Violation) :
    countKind k (Violation.sorted vs) = countKind k vs :=
  (List.mergeSort_perm vs _).countP_eq _

/-- For every kind, as many names failed by count as are listed. -/
def FileReport.Balanced (f : FileReport) : Prop :=
  ∀ k, (f.tallies.get k).invalid = countKind k f.violations

@[inherit_doc FileReport.Balanced]
def RunResult.Balanced (r : RunResult) : Prop :=
  ∀ k, (r.tallies.get k).invalid = countKind k r.violations

namespace RunResult

@[simp] theorem tallies_absorb (r : RunResult) (f : FileReport) :
    (r.absorb f).tallies = r.tallies.merge f.tallies := rfl

@[simp] theorem violations_absorb (r : RunResult) (f : FileReport) :
    (r.absorb f).violations = r.violations ++ f.violations := rfl

/-- A report says nothing about gaps. -/
@[simp] theorem gaps_absorb (r : RunResult) (f : FileReport) : (r.absorb f).gaps = r.gaps := by
  rw [absorb]
  cases f.status <;> rfl

/-- Absorbing a balanced report keeps a result balanced. -/
theorem Balanced.absorb {r : RunResult} (hr : r.Balanced) {f : FileReport} (hf : f.Balanced) :
    (r.absorb f).Balanced := by
  intro k
  simp only [tallies_absorb, violations_absorb, TallySet.get_merge, Tally.invalid_add,
    countKind_append, hr k, hf k]

theorem Balanced.sort {r : RunResult} (hr : r.Balanced) : r.sort.Balanced := by
  intro k
  rw [RunResult.sort, countKind_sorted]
  exact hr k

/-- Results that are balanced stay so when they are put together. -/
theorem Balanced.append {r s : RunResult} (hr : r.Balanced) (hs : s.Balanced) :
    (r.append s).Balanced := by
  intro k
  simp only [RunResult.append, TallySet.get_merge, Tally.invalid_add, countKind_append, hr k, hs k]

theorem Balanced.merge {r s : RunResult} (hr : r.Balanced) (hs : s.Balanced) :
    (r.merge s).Balanced :=
  (hr.append hs).sort

/-- A balanced result lists a violation exactly if it counts a failed name. -/
theorem Balanced.hasViolations_iff {r : RunResult} (hr : r.Balanced) :
    r.hasViolations = true ↔ 0 < r.tallies.totalInvalid := by
  rw [TallySet.totalInvalid_pos_iff, hasViolations, Bool.not_eq_true',
    List.isEmpty_eq_false_iff_exists_mem]
  constructor
  · -- a violation is counted under its own kind
    rintro ⟨v, hv⟩
    refine ⟨v.kind, ?_⟩
    rw [hr, countKind, List.countP_pos_iff]
    exact ⟨v, hv, by simp⟩
  · rintro ⟨k, hk⟩
    rw [hr, countKind, List.countP_pos_iff] at hk
    obtain ⟨v, hv, -⟩ := hk
    exact ⟨v, hv⟩

end RunResult

/-! ## Files -/

namespace NameCheck

/-- A check by a casing rule, or by none. -/
def IsCasing : NameCheck → Prop
  | judged rule o => ∃ (c : CasingRule) (f : SourceFile), rule = c.toRule ∧ o = c.check f
  | unruled _ => True

/-- With a table of casing rules, each check comes from one of them. -/
theorem isCasing_run {t : RuleTable} (ht : t.IsCasing) (f : SourceFile) (pair : Kind × Convention) :
    (run t f pair).IsCasing := by
  rw [run]
  split
  · rename_i rule hlookup
    obtain ⟨c, rfl⟩ := ht rule (List.mem_of_find?_eq_some hlookup)
    exact ⟨c, f, rfl, rfl⟩
  · trivial

/-- What a check by a casing rule counts for each kind is what it lists for it. -/
theorem invalid_count (s : TallySet) {check : NameCheck} (h : check.IsCasing) (k : Kind) :
    ((count s check).get k).invalid =
      (s.get k).invalid + countKind k check.outcome.violations := by
  cases check with
  | unruled gap => simp [count, outcome, Outcome.nothing]
  | judged rule o =>
    obtain ⟨c, f, rfl, rfl⟩ := h
    -- a casing rule reports its own kind only
    have hkind : ∀ v ∈ (c.check f).violations, v.kind = c.kind := by
      intro v hv
      obtain ⟨d, -, -, rfl⟩ := CasingRule.mem_violations_check.mp hv
      rfl
    rw [count, outcome, countKind_of_forall hkind, c.length_violations_check, TallySet.get_add]
    show (if k = c.kind then _ else _ : Tally).invalid = _
    split
    · rename_i hk
      rw [hk, Tally.invalid_add]
      rfl
    · rfl

/-- What some checks by casing rules count for each kind is what they list for it. -/
theorem invalid_foldl_count {checks : List NameCheck} (h : ∀ c ∈ checks, c.IsCasing) (s : TallySet)
    (k : Kind) :
    ((checks.foldl count s).get k).invalid =
      (s.get k).invalid + countKind k (checks.flatMap fun c => c.outcome.violations) := by
  induction checks generalizing s with
  | nil => simp
  | cons check checks ih =>
    obtain ⟨hcheck, hchecks⟩ := List.forall_mem_cons.mp h
    rw [List.foldl_cons, ih hchecks, invalid_count s hcheck, List.flatMap_cons, countKind_append,
      Nat.add_assoc]

/-- Checks by rules of other kinds leave the tally of a kind alone. -/
theorem get_foldl_count_of_forall {checks : List NameCheck} {k : Kind}
    (h : ∀ r o, judged r o ∈ checks → r.kind ≠ k) (s : TallySet) :
    (checks.foldl count s).get k = s.get k := by
  induction checks generalizing s with
  | nil => rfl
  | cons c checks ih =>
    have hrest : ∀ r o, judged r o ∈ checks → r.kind ≠ k :=
      fun r o hmem => h r o (List.mem_cons_of_mem c hmem)
    rw [List.foldl_cons, ih hrest]
    cases c with
    | unruled gap => rfl
    | judged r o =>
      -- a rule of another kind counts elsewhere
      have hne : k ≠ r.kind := (h r o List.mem_cons_self).symm
      rw [count, TallySet.get_add, if_neg hne]

end NameCheck

namespace Analyzer

/-- A file counts as many failed names as it lists, whether it is checked or not. -/
theorem balanced_analyzeFile {a : Analyzer} (ha : a.table.IsCasing) (path : Path)
    (content : Except DiskError Text) : (a.analyzeFile path content).Balanced := by
  intro k
  rcases a.analyzeFile_cases path content with ⟨status, -, hblank⟩ | ⟨f, -, hfull⟩
  · -- a file that is not checked counts nothing and lists nothing
    rw [hblank]
    simp [FileReport.blank]
  · -- each check is balanced, and the report is their sum
    have hchecks : ∀ c ∈ a.nameChecks f, c.IsCasing := by
      intro c hc
      obtain ⟨pair, -, rfl⟩ := List.mem_map.mp hc
      exact NameCheck.isCasing_run ha f pair
    rw [hfull]
    simp only [Inspection.report, NameCheck.invalid_foldl_count hchecks, TallySet.get_zero,
      Tally.invalid_zero, Nat.zero_add]

/-- No rule checks the kind: it has no convention, or no rule is there for the pair. -/
def Unchecked (a : Analyzer) (k : Kind) : Prop :=
  ∀ c, a.config.conventionFor k = some c → a.table.lookup k c = none

/-- A kind that no rule checks is not counted. -/
theorem tally_of_unchecked {a : Analyzer} {k : Kind} (hk : a.Unchecked k) (path : Path)
    (content : Except DiskError Text) :
    (a.analyzeFile path content).tallies.get k = Tally.zero := by
  rcases a.analyzeFile_cases path content with ⟨status, -, hblank⟩ | ⟨f, -, hfull⟩
  · rw [hblank]
    simp [FileReport.blank]
  · rw [hfull]
    -- a check of `k` would need a rule for the convention of `k`
    have hother : ∀ r o, NameCheck.judged r o ∈ a.nameChecks f → r.kind ≠ k := by
      rintro r o hmem rfl
      obtain ⟨⟨j, c⟩, hpair, hrun⟩ := List.mem_map.mp hmem
      rw [NameCheck.run] at hrun
      split at hrun
      · rename_i rule hrule
        cases hrun
        obtain ⟨rfl, rfl⟩ := RuleTable.kind_of_lookup hrule
        rw [hk _ (Config.mem_enabled.mp hpair)] at hrule
        simp at hrule
      · simp at hrun
    simp only [Inspection.report, NameCheck.get_foldl_count_of_forall hother, TallySet.get_zero]

/-! ## Runs -/

/-- What the violations of a run say about the analyzer that made it. -/
structure Accounts (a : Analyzer) (r : RunResult) : Prop where
  balanced : r.Balanced
  /-- A violation carries the convention configured for its kind. -/
  configured : ∀ v ∈ r.violations, a.config.conventionFor v.kind = some v.convention
  /-- Its name fails the test behind that convention. -/
  fails : ∀ v ∈ r.violations, ∃ p, v.convention.predicate? = some p ∧ p v.name.toList = false

/-- What a run says about kinds and pairs without a rule. -/
structure SkipsUnruled (a : Analyzer) (r : RunResult) : Prop where
  unchecked : ∀ k, a.Unchecked k → r.tallies.get k = Tally.zero
  /-- The gaps are the configured pairs without a rule. -/
  gaps : ∀ g, r.gaps.has g = true ↔ a.config.conventionFor g.kind = some g.convention ∧
    a.table.lookup g.kind g.convention = none

/-- A gap is a configured pair that the table has no rule for. -/
theorem mem_gaps {a : Analyzer} {g : Gap} :
    g ∈ a.gaps ↔ a.config.conventionFor g.kind = some g.convention ∧
      a.table.lookup g.kind g.convention = none := by
  rw [gaps, List.mem_map]
  constructor
  · rintro ⟨⟨k, c⟩, hp, rfl⟩
    obtain ⟨henabled, hnot⟩ := List.mem_filter.mp hp
    exact ⟨Config.mem_enabled.mp henabled, by simpa [RuleTable.implements] using hnot⟩
  · -- the pair is enabled, and the filter lets it pass
    rintro ⟨hconfig, hnone⟩
    refine ⟨(g.kind, g.convention), List.mem_filter.mpr ⟨Config.mem_enabled.mpr hconfig, ?_⟩, rfl⟩
    simp [RuleTable.implements, hnone]

/-- At the start there is nothing to account for. -/
theorem accounts_start (a : Analyzer) : a.Accounts a.start where
  balanced k := by simp [start, RunResult.empty]
  configured v hv := by simp [start, RunResult.empty] at hv
  fails v hv := by simp [start, RunResult.empty] at hv

/-- At the start nothing is counted, and the gaps are known. -/
theorem skipsUnruled_start (a : Analyzer) : a.SkipsUnruled a.start where
  unchecked k _ := by simp [start, RunResult.empty]
  gaps g := by
    rw [← mem_gaps]
    simp [start, GapSet.ofList]

/-- A violation of a casing rule carries the convention configured for its kind, and fails it. -/
theorem configured_of_mem_violations {a : Analyzer} (ha : a.table.IsCasing) {path : Path}
    {content : Except DiskError Text} {v : Violation}
    (h : v ∈ (a.analyzeFile path content).violations) :
    a.config.conventionFor v.kind = some v.convention ∧
      ∃ p, v.convention.predicate? = some p ∧ p v.name.toList = false := by
  obtain ⟨rule, f, hconfig, hlookup, -, hv⟩ := exists_rule_of_mem_violations h
  obtain ⟨c, rfl⟩ := ha rule (List.mem_of_find?_eq_some hlookup)
  obtain ⟨d, -, hfails, rfl⟩ := CasingRule.mem_violations_check.mp hv
  refine ⟨hconfig, c.accepts, c.accepts_eq, ?_⟩
  simpa [CasingRule.violation, CasingRule.passes] using hfails

/-- Absorbing a file keeps the accounts, if casing rules look at its names. -/
theorem Accounts.absorb {a : Analyzer} (ha : a.table.IsCasing) {r : RunResult} (hr : a.Accounts r)
    (path : Path) (content : Except DiskError Text) :
    a.Accounts (r.absorb (a.analyzeFile path content)) where
  balanced := hr.balanced.absorb (balanced_analyzeFile ha path content)
  configured v hv := by
    rcases List.mem_append.mp hv with hv | hv
    · exact hr.configured v hv
    · exact (configured_of_mem_violations ha hv).1
  fails v hv := by
    rcases List.mem_append.mp hv with hv | hv
    · exact hr.fails v hv
    · exact (configured_of_mem_violations ha hv).2

/-- No file adds to a kind without a rule, and none changes the gaps. -/
theorem SkipsUnruled.absorb {a : Analyzer} {r : RunResult} (hr : a.SkipsUnruled r) (path : Path)
    (content : Except DiskError Text) : a.SkipsUnruled (r.absorb (a.analyzeFile path content)) where
  unchecked k hk := by
    rw [RunResult.tallies_absorb, TallySet.get_merge, hr.unchecked k hk, tally_of_unchecked hk,
      Tally.add_zero]
  gaps g := by
    rw [RunResult.gaps_absorb]
    exact hr.gaps g

/-- The order of violations does not matter. -/
theorem Accounts.sort {a : Analyzer} {r : RunResult} (hr : a.Accounts r) : a.Accounts r.sort where
  balanced := hr.balanced.sort
  configured v hv := hr.configured v (List.mem_mergeSort.mp hv)
  fails v hv := hr.fails v (List.mem_mergeSort.mp hv)

/-- Every run of casing rules keeps its accounts, whatever the disk and the directory. -/
theorem accounts_analyzeDirectory {a : Analyzer} (ha : a.table.IsCasing) (d : Disk) (dir : Path) :
    a.Accounts (a.analyzeDirectory d dir) :=
  analyzeDirectory_induction a.accounts_start (fun path content _ hr => hr.absorb ha path content)
    (fun _ hr => hr.sort) d dir

/-- Along a whole run, kinds without a rule count nothing. -/
theorem skipsUnruled_analyzeDirectory (a : Analyzer) (d : Disk) (dir : Path) :
    a.SkipsUnruled (a.analyzeDirectory d dir) :=
  analyzeDirectory_induction a.skipsUnruled_start (fun path content _ hr => hr.absorb path content)
    (fun _ hr => ⟨hr.unchecked, hr.gaps⟩) d dir

end Analyzer

/-! ## Results of runs put together -/

/-- The results of runs of casing rules, and what comes of merging and sorting them, in any order and
number. -/
inductive RunResult.Obtained : RunResult → Prop where
  | run (a : Analyzer) (casing : a.table.IsCasing) (d : Disk) (dir : Path) :
    Obtained (a.analyzeDirectory d dir)
  | merge {r s : RunResult} : Obtained r → Obtained s → Obtained (r.merge s)
  | sort {r : RunResult} : Obtained r → Obtained r.sort

/-- Every result that is obtained is balanced. -/
theorem RunResult.Obtained.balanced {r : RunResult} (h : r.Obtained) : r.Balanced := by
  -- along the ways to obtain a result: a run, a merge, and sorting
  induction h with
  | run a ha d dir => exact (Analyzer.accounts_analyzeDirectory ha d dir).balanced
  | merge _ _ ihr ihs => exact ihr.merge ihs
  | sort _ ih => exact ih.sort

/-- In every result obtained, each kind counts as many failed names as it lists violations, so there
are violations exactly if failed names are counted. In the result of one run of casing rules, every
violation breaks the convention configured for its kind. Whatever the rules are, kinds that no rule
checks count nothing, and the gaps are the configured pairs without a rule. -/
theorem tallies_account_for_violations :
    (∀ r : RunResult, r.Obtained →
      (∀ k, (r.tallies.get k).invalid = r.violations.countP (·.kind = k)) ∧
      (r.hasViolations = true ↔ 0 < r.tallies.totalInvalid)) ∧
    ∀ (a : Analyzer) (d : Disk) (dir : Path),
      (a.table.IsCasing → ∀ v ∈ (a.analyzeDirectory d dir).violations,
        a.config.conventionFor v.kind = some v.convention ∧
        ∃ p, v.convention.predicate? = some p ∧ p v.name.toList = false) ∧
      (∀ k, (a.config.conventionFor k = none ∨
          ∃ c, a.config.conventionFor k = some c ∧ a.table.lookup k c = none) →
        (a.analyzeDirectory d dir).tallies.get k = Tally.zero) ∧
      (∀ g, (a.analyzeDirectory d dir).gaps.has g = true ↔
        a.config.conventionFor g.kind = some g.convention ∧
          a.table.lookup g.kind g.convention = none) := by
  refine ⟨?_, ?_⟩
  · intro r hr
    exact ⟨hr.balanced, hr.balanced.hasViolations_iff⟩
  · intro a d dir
    have hskips := a.skipsUnruled_analyzeDirectory d dir
    refine ⟨?_, ?_, hskips.gaps⟩
    · intro ha v hv
      have hacc := Analyzer.accounts_analyzeDirectory ha d dir
      exact ⟨hacc.configured v hv, hacc.fails v hv⟩
    · intro k hk
      apply hskips.unchecked k
      intro c hc
      -- without a convention there is nothing to look up, else the lookup fails
      rcases hk with hnone | ⟨c', hc', hlookup⟩
      · rw [hnone] at hc
        simp at hc
      · rw [hc, Option.some.injEq] at hc'
        rw [hc', hlookup]

end NamingLint
