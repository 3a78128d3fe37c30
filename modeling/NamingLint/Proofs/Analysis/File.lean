import Mathlib.Data.List.Basic
import NamingLint.Analysis.Analyzer
import NamingLint.Proofs.Rule.Outcome

/-!
# NamingLint — what a file report holds

The report of a file is blank unless every check ran. Then it holds what the rules of the configured
pairs and the enabled construct rules found.

Main results:

* `analyzeFile_cases` — the two forms of a report.
* `exists_rule_of_mem_violations` — a violation comes from the rule of a configured pair.
* `exists_construct_of_mem_findings` — a finding comes from an enabled construct rule.
* `path_of_mem_violations`, `path_of_mem_findings` — entries are located in the file, if the rules see
  to it.
-/

namespace NamingLint

/-! ## Tables and configurations -/

/-- A rule that is looked up is for the kind and the convention asked for. -/
theorem RuleTable.kind_of_lookup {t : RuleTable} {k : Kind} {c : Convention} {r : Rule}
    (h : t.lookup k c = some r) : r.kind = k ∧ r.convention = c := by
  simpa using List.find?_some h

/-- The enabled pairs are the kinds with their conventions. -/
theorem Config.mem_enabled {c : Config} {k : Kind} {v : Convention} :
    (k, v) ∈ c.enabled ↔ c.conventionFor k = some v := by
  rw [enabled, List.mem_filterMap]
  constructor
  · rintro ⟨j, -, h⟩
    obtain ⟨w, hw, heq⟩ := Option.map_eq_some_iff.mp h
    cases heq
    exact hw
  · intro h
    exact ⟨k, Kind.mem_all k, by rw [h, Option.map_some]⟩

namespace Analyzer

/-! ## The two forms of a report -/

/-- A report is blank, or it is that of a file in which every check ran. -/
theorem analyzeFile_cases (a : Analyzer) (path : Path) (content : Except DiskError Text) :
    (∃ status, status ≠ .completed ∧
      a.analyzeFile path content = .blank path (.ofPath path) status) ∨
    ∃ f : SourceFile, f.path = path ∧ a.analyzeFile path content =
      (Inspection.completed f (a.nameChecks f) (a.constructChecks f)).report path := by
  unfold analyzeFile inspect
  dsimp only
  split
  · -- the three ways out before the checks
    exact .inl ⟨.notSource, by simp, rfl⟩
  · split
    · rename_i e
      exact .inl ⟨.unreadable e.message, by simp, rfl⟩
    · rename_i t
      rw [inspectSource]
      split
      · exact .inl ⟨.suppressed, by simp, rfl⟩
      · exact .inr ⟨_, rfl, rfl⟩

/-! ## Violations -/

/-- A violation comes from the rule of a configured pair. -/
theorem exists_rule_of_mem_violations {a : Analyzer} {path : Path}
    {content : Except DiskError Text} {v : Violation}
    (h : v ∈ (a.analyzeFile path content).violations) :
    ∃ (r : Rule) (f : SourceFile), a.config.conventionFor r.kind = some r.convention ∧
      a.table.lookup r.kind r.convention = some r ∧ f.path = path ∧
      v ∈ (r.check f).violations := by
  rcases a.analyzeFile_cases path content with ⟨status, -, hblank⟩ | ⟨f, hpath, hfull⟩
  · rw [hblank] at h
    simp [FileReport.blank] at h
  · rw [hfull] at h
    obtain ⟨check, hcheck, hv⟩ := List.mem_flatMap.mp h
    -- each check comes from a pair of the configuration
    obtain ⟨⟨k, c⟩, hpair, rfl⟩ := List.mem_map.mp hcheck
    rw [NameCheck.run] at hv
    split at hv
    · rename_i r hr
      obtain ⟨rfl, rfl⟩ := RuleTable.kind_of_lookup hr
      exact ⟨r, f, Config.mem_enabled.mp hpair, hr, hpath, hv⟩
    · simp [NameCheck.outcome, Outcome.nothing] at hv

/-- Violations of a file are placed in it, if rules do so. -/
theorem path_of_mem_violations {a : Analyzer} (htable : a.table.ReportsOwnFiles) {path : Path}
    {content : Except DiskError Text} {v : Violation}
    (h : v ∈ (a.analyzeFile path content).violations) : v.location.path = path := by
  obtain ⟨r, f, -, hlookup, hpath, hv⟩ := exists_rule_of_mem_violations h
  rw [htable.rules r (List.mem_of_find?_eq_some hlookup) f v hv, hpath]

/-! ## Findings -/

/-- A finding comes from a construct rule that is switched on. -/
theorem exists_construct_of_mem_findings {a : Analyzer} {path : Path}
    {content : Except DiskError Text} {g : Finding}
    (h : g ∈ (a.analyzeFile path content).findings) :
    ∃ (r : ConstructRule) (f : SourceFile), r ∈ a.table.constructs ∧
      r.isEnabled a.config = true ∧ f.path = path ∧ g ∈ r.check f := by
  rcases a.analyzeFile_cases path content with ⟨status, -, hblank⟩ | ⟨f, hpath, hfull⟩
  · rw [hblank] at h
    simp [FileReport.blank] at h
  · rw [hfull] at h
    obtain ⟨check, hcheck, hg⟩ := List.mem_flatMap.mp h
    obtain ⟨r, hr, rfl⟩ := List.mem_map.mp hcheck
    obtain ⟨hmem, henabled⟩ := List.mem_filter.mp hr
    -- a rule that its marker switches off finds nothing
    rw [ConstructCheck.run] at hg
    split at hg
    · simp [ConstructCheck.findings] at hg
    · exact ⟨r, f, hmem, henabled, hpath, hg⟩

/-- Findings of a file are placed in it, if rules do so. -/
theorem path_of_mem_findings {a : Analyzer} (htable : a.table.ReportsOwnFiles) {path : Path}
    {content : Except DiskError Text} {g : Finding}
    (h : g ∈ (a.analyzeFile path content).findings) : g.location.path = path := by
  obtain ⟨r, f, hmem, -, hpath, hg⟩ := exists_construct_of_mem_findings h
  rw [htable.constructs r hmem f g hg, hpath]

end Analyzer

end NamingLint
