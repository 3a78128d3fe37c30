import Mathlib.Data.List.Dedup
import NamingLint.Proofs.Analysis.Independence
import NamingLint.Proofs.Declaration.Property

/-!
# NamingLint — each property counts once

However often a property is declared and assigned to, it is one declaration of the text. So the tally
of a file counts the different names of its properties.

Main results:

* `Analyzer.total_of_completed` — a tally counts the declarations of its kind.
* `property_names_count_once` — the declarations that are kept, and the tally of a file.
-/

namespace NamingLint

/-! ## The tally of a file -/

namespace Analyzer

/-- A file that is checked to the end has a full report about its text. -/
theorem analyzeFile_of_completed {a : Analyzer} {path : Path} {text : Text}
    (h : (a.analyzeFile path (.ok text)).status = .completed) :
    a.analyzeFile path (.ok text) =
      a.fullReport (SourceFile.ofContent path a.root (.ofPath path) text) path := by
  by_cases hsource : (FileType.ofPath path).isSource = true
  · by_cases hmarker : Marker.casing.suppresses
        (SourceFile.ofContent path a.root (.ofPath path) text).stripped = true
    · simp [analyzeFile, inspect, hsource, report_of_marker hmarker, FileReport.blank] at h
    · simp [analyzeFile, inspect, hsource, report_of_no_marker hmarker]
  · simp [analyzeFile, inspect, hsource, Inspection.report, Inspection.status, FileReport.blank] at h

/-- A kind whose convention has a rule is counted declaration by declaration. -/
theorem total_of_completed {a : Analyzer} (htable : a.table.UsesKindDetectors) {k : Kind}
    {v : Convention} (hconvention : a.config.conventionFor k = some v)
    (hrule : a.table.implements k v = true) {path : Path} {text : Text}
    (h : (a.analyzeFile path (.ok text)).status = .completed) :
    ((a.analyzeFile path (.ok text)).tallies.get k).total =
      (k.declarations (Source.strip text)).length := by
  have hkind : ∀ r ∈ a.table.rules, r.kind = k →
      ∃ c : CasingRule, c.detector = k.detector ∧ r = c.toRule := by
    rintro r hr rfl
    exact htable r hr
  -- the rule that is looked up is a casing rule over the declarations of `k`
  obtain ⟨c, hdetector, -, hlookup⟩ := RuleTable.exists_casing_of_implements hkind hrule
  rw [analyzeFile_of_completed h, tallies_report, outcomeOf_eq_check hconvention hlookup]
  show (c.check _).tally.total = _
  rw [c.total_check, CasingRule.declarations, hdetector]
  rfl

end Analyzer

/-- In every text the properties have pairwise different names, and these are the names of all fields
and assignments that are matched. Each property is the first match of its name, and where a field is
matched at its offset, it is that field. So in a file that is checked to the end, under a convention
with a rule, the tally of properties counts the different names that are matched. -/
theorem property_names_count_once :
    (∀ t : Text,
      ((Kind.properties.detector.detect t).map (·.name)).Nodup ∧
      (∀ n, n ∈ (Kind.properties.detector.detect t).map (·.name) ↔
        n ∈ (propertyFinds t).map (·.name)) ∧
      ∀ d ∈ Kind.properties.detector.detect t,
        d ∈ propertyFinds t ∧
        (∀ e ∈ propertyFinds t, e.name = d.name → d.offset ≤ e.offset) ∧
        ∀ e ∈ declarationsOf fieldShape t, e.offset = d.offset → d = e) ∧
    ∀ (a : Analyzer) (v : Convention) (path : Path) (text : Text), a.table.UsesKindDetectors →
      a.config.conventionFor .properties = some v → a.table.implements .properties v = true →
      (a.analyzeFile path (.ok text)).status = .completed →
      ((a.analyzeFile path (.ok text)).tallies.get .properties).total =
        ((propertyFinds (Source.strip text)).map (·.name)).dedup.length := by
  constructor
  · intro t
    refine ⟨nodup_names_properties t, fun n => mem_names_properties, ?_⟩
    intro d hd
    have hmatch : d ∈ propertyFinds t :=
      Declaration.mem_of_mem_inOrder (mem_of_mem_firstOfEachName hd)
    exact ⟨hmatch, fun e he => offset_le_of_mem_properties hd he, fun e he => eq_of_mem_fields hd he⟩
  · intro a v path text htable hconvention hrule hstatus
    -- the names that are kept are a way to list the different names
    have hperm : ((propertyDeclarations (Source.strip text)).map (·.name)).Perm
        ((propertyFinds (Source.strip text)).map (·.name)).dedup := by
      refine (List.perm_ext_iff_of_nodup (nodup_names_properties _)
        (List.nodup_dedup _)).mpr ?_
      intro n
      rw [List.mem_dedup, mem_names_properties]
    rw [Analyzer.total_of_completed htable hconvention hrule hstatus, ← hperm.length_eq,
      List.length_map]
    rfl

/-- Properties in camel case, nothing else. -/
def camelProperties : Analyzer where
  root := ⟨"/p"⟩
  config := { Config.standard with casing := Casing.unset.set .properties (some .camel) }
  table := .standard

/-- A field and an assignment to it, with two assignments to another property in between. -/
def repeatedProperties : Text :=
  "  private n_o = 0;\nthis.b = 1; this.n_o = 2; /**/this.b = 3;".toList

theorem repeatedProperties_count_once :
    (camelProperties.analyzeFile ⟨"/p/a.ts"⟩ (.ok repeatedProperties)).status = .completed ∧
    ((camelProperties.analyzeFile ⟨"/p/a.ts"⟩ (.ok repeatedProperties)).tallies.get
      .properties).total = 2 ∧
    ⟨"n_o".toList, "  private n_o = 0;".toList, 10⟩ ∈
      Kind.properties.detector.detect (Source.strip repeatedProperties) ∧
    ∀ e ∈ propertyFinds (Source.strip repeatedProperties), e.name = "n_o".toList →
      10 ≤ e.offset := by
  have hstatus : (camelProperties.analyzeFile ⟨"/p/a.ts"⟩ (.ok repeatedProperties)).status =
      .completed := by decide +kernel
  have hfield : ⟨"n_o".toList, "  private n_o = 0;".toList, 10⟩ ∈
      Kind.properties.detector.detect (Source.strip repeatedProperties) := by decide +kernel
  obtain ⟨hdetect, htally⟩ := property_names_count_once
  refine ⟨hstatus, ?_, hfield, ((hdetect _).2.2 _ hfield).2.1⟩
  rw [htally camelProperties .camel _ _ RuleTable.usesKindDetectors_standard rfl (by decide) hstatus]
  decide +kernel

end NamingLint
