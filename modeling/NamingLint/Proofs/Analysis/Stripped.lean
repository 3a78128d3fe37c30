import Mathlib.Data.List.Forall2
import NamingLint.Proofs.Analysis.File
import NamingLint.Proofs.Source.Enclosure

/-!
# NamingLint — what a report depends on

Markers are searched for in the stripped text of a file, and so are names and constructs by the rules
that come with the library. These read the text itself in one place, where the line of a violation is
looked up. So the bodies of comments and literals change a report in the lines of its violations at
most. A rule of another making may read more.

* `SourceFile.SameCode` — files that are the same when stripped.
* `FileReport.SameButLines` — reports that differ in the lines of their violations at most.
* `RuleTable.ReadsCode` — rules that say the same about such files.

Main results:

* `IsCasing.readsCode` — casing rules and the rule against `any` do so.
* `analyzeFile_sameButLines` — texts that differ in bodies only have the same report, up to lines of
  violations.
* `bodies_may_move_findings` — a rule that looks its lines up in the text shows the bodies.
-/

namespace NamingLint

/-! ## Entries up to lines -/

/-- The same violation, maybe on another line. -/
structure Violation.SameButLine (v w : Violation) : Prop where
  name : v.name = w.name
  kind : v.kind = w.kind
  convention : v.convention = w.convention
  path : v.location.path = w.location.path

/-- Two reports that differ in the lines of their violations at most. -/
structure FileReport.SameButLines (r s : FileReport) : Prop where
  path : r.path = s.path
  type : r.type = s.type
  status : r.status = s.status
  tallies : r.tallies = s.tallies
  findings : r.findings = s.findings
  violations : List.Forall₂ Violation.SameButLine r.violations s.violations

theorem FileReport.SameButLines.of_blank (path : Path) (type : FileType) (status : FileStatus) :
    (blank path type status).SameButLines (blank path type status) :=
  ⟨rfl, rfl, rfl, rfl, rfl, .nil⟩

/-! ## Checks -/

/-- Two readings of a file that are the same when stripped. -/
structure SourceFile.SameCode (f g : SourceFile) : Prop where
  path : f.path = g.path
  shown : f.shown = g.shown
  type : f.type = g.type
  stripped : f.stripped = g.stripped

/-- Rules that say the same about files that are the same when stripped, but for the lines of
violations. -/
structure RuleTable.ReadsCode (t : RuleTable) : Prop where
  rules : ∀ r ∈ t.rules, ∀ f g : SourceFile, f.SameCode g →
    (r.check f).tally = (r.check g).tally ∧
      List.Forall₂ Violation.SameButLine (r.check f).violations (r.check g).violations
  constructs : ∀ r ∈ t.constructs, ∀ f g : SourceFile, f.SameCode g → r.check f = r.check g

variable {f g : SourceFile}

/-- A casing rule looks up lines in the text, and nothing else. -/
theorem CasingRule.check_sameButLine (h : f.SameCode g) (r : CasingRule) :
    (r.check f).tally = (r.check g).tally ∧
      List.Forall₂ Violation.SameButLine (r.check f).violations (r.check g).violations := by
  have hdeclarations : r.declarations f = r.declarations g := by
    rw [declarations, declarations, h.stripped]
  rw [check_eq, check_eq, hdeclarations]
  refine ⟨rfl, ?_⟩
  rw [List.forall₂_map_left_iff, List.forall₂_map_right_iff, List.forall₂_same]
  intro d _
  exact ⟨rfl, rfl, rfl, h.path⟩

/-- The findings of a type `any` carry lines of the stripped text. -/
theorem ConstructRule.check_noAny_eq (h : f.SameCode g) : noAny.check f = noAny.check g := by
  have hfinding : anyFinding f = anyFinding g := by
    funext offset
    simp only [anyFinding, SourceFile.lineAt, h.path, h.stripped]
  show (if mayHoldAny f.type then _ else _) = if mayHoldAny g.type then _ else _
  rw [h.type, h.stripped, hfinding]

/-- Casing rules and the rule against `any` read the stripped text. -/
theorem RuleTable.IsCasing.readsCode {t : RuleTable} (h : t.IsCasing)
    (hconstructs : ∀ r ∈ t.constructs, r = .noAny) : t.ReadsCode where
  rules r hr f g hfg := by
    obtain ⟨c, rfl⟩ := h r hr
    exact c.check_sameButLine hfg
  constructs r hr f g hfg := by
    rw [hconstructs r hr]
    exact ConstructRule.check_noAny_eq hfg

/-! ## Reports -/

section Checks

variable {t : RuleTable} {R : Violation → Violation → Prop}

/-- Rules that count alike and list alike, up to a relation of violations, make such checks. -/
theorem NameCheck.run_rel
    (h : ∀ r ∈ t.rules, (r.check f).tally = (r.check g).tally ∧
      List.Forall₂ R (r.check f).violations (r.check g).violations) (pair : Kind × Convention) :
    (∀ s, count s (run t f pair) = count s (run t g pair)) ∧
      List.Forall₂ R (run t f pair).outcome.violations (run t g pair).outcome.violations := by
  rw [run, run]
  split
  · rename_i rule hlookup
    obtain ⟨htally, hviolations⟩ := h rule (List.mem_of_find?_eq_some hlookup)
    refine ⟨?_, hviolations⟩
    intro s
    exact congrArg (s.add rule.kind) htally
  · exact ⟨fun _ => rfl, .nil⟩

/-- So the tallies of a file are the same, and its violations are related one by one. -/
theorem Analyzer.nameChecks_rel {a : Analyzer}
    (h : ∀ r ∈ a.table.rules, (r.check f).tally = (r.check g).tally ∧
      List.Forall₂ R (r.check f).violations (r.check g).violations) :
    (a.nameChecks f).foldl NameCheck.count TallySet.zero =
        (a.nameChecks g).foldl NameCheck.count TallySet.zero ∧
      List.Forall₂ R ((a.nameChecks f).flatMap fun c => c.outcome.violations)
        ((a.nameChecks g).flatMap fun c => c.outcome.violations) := by
  rw [nameChecks, nameChecks, List.foldl_map, List.foldl_map, List.flatMap_map, List.flatMap_map]
  constructor
  · congr 1
    funext s pair
    exact (NameCheck.run_rel h pair).1 s
  · have hpairs : List.Forall₂ Eq a.config.enabled a.config.enabled :=
      List.forall₂_same.mpr fun _ _ => rfl
    exact List.rel_flatMap hpairs fun pair _ hpair => hpair ▸ (NameCheck.run_rel h pair).2

/-- Construct checks that agree rule by rule agree together. -/
theorem Analyzer.constructChecks_eq {a : Analyzer}
    (h : ∀ r ∈ a.table.constructs, ConstructCheck.run f r = ConstructCheck.run g r) :
    a.constructChecks f = a.constructChecks g :=
  List.map_congr_left fun r hr => h r (List.mem_filter.mp hr).1

end Checks

/-- The reports of two such files, put together from their checks. -/
theorem Analyzer.report_sameButLines {a : Analyzer} (ht : a.table.ReadsCode) (h : f.SameCode g)
    (path : Path) :
    ((a.inspectSource f).report path).SameButLines ((a.inspectSource g).report path) := by
  obtain ⟨htallies, hviolations⟩ := nameChecks_rel (a := a) fun r hr => ht.rules r hr f g h
  have hconstructs : a.constructChecks f = a.constructChecks g := by
    apply constructChecks_eq
    intro r hr
    rw [ConstructCheck.run, ConstructCheck.run, h.stripped, ht.constructs r hr f g h]
  -- markers are looked for in the stripped text, so both files are suppressed or none is
  rw [inspectSource, inspectSource, h.stripped]
  split
  · exact .of_blank path _ _
  · exact ⟨rfl, rfl, rfl, htallies, congrArg (List.flatMap ConstructCheck.findings) hconstructs,
      hviolations⟩

/-- The bodies of comments and literals carry no information: a marker, a name or a construct in
them changes neither how the analysis of a file ends nor what it counts and finds. Violations stay
the same, one by one, up to the lines they are shown on. This is said of rules that read the stripped
text, as all those of the standard table do. -/
theorem analyzeFile_sameButLines (a : Analyzer) (htable : a.table.ReadsCode) (path : Path)
    {t u : Text} (h : Source.SameCode t u) :
    (a.analyzeFile path (.ok t)).SameButLines (a.analyzeFile path (.ok u)) := by
  -- the path alone says whether the file is looked into
  rw [Analyzer.analyzeFile, Analyzer.analyzeFile, Analyzer.inspect, Analyzer.inspect]
  split
  · exact .of_blank path _ _
  · have hsame : (SourceFile.ofContent path a.root (.ofPath path) t).SameCode
        (.ofContent path a.root (.ofPath path) u) := ⟨rfl, rfl, rfl, h.strip_eq⟩
    exact Analyzer.report_sameButLines htable hsame path

/-- A variable and a type `any`, among a comment of either form, a template and a quoted literal. -/
def fourBodies (block template line quoted : Text) : Text :=
  ['/', '*'] ++ (block ++ (['*', '/'] ++ ("\nlet A_b: any = ".toList ++
    (['\x60'] ++ (template ++ (['\x60'] ++ ("; ".toList ++
      (['/', '/'] ++ (line ++ ([] ++ ('\n' :: "let c = ".toList ++
        (['\''] ++ (quoted ++ (['\''] ++ ";".toList))))))))))))))

/-- A text with a body of each form, in which all four are exchanged. -/
theorem sameCode_fourBodies {block block' template template' line line' quoted quoted' : Text}
    (hblock : Source.Enclosure.blockComment.Swaps block block')
    (htemplate : (Source.Enclosure.literal '\x60' rfl).Swaps template template')
    (hline : Source.Enclosure.lineComment.Swaps line line')
    (hquoted : (Source.Enclosure.literal '\'' rfl).Swaps quoted quoted') :
    Source.SameCode (fourBodies block template line quoted)
      (fourBodies block' template' line' quoted') := by
  refine .enclosed _ hblock (.blockClosed _) (.append_left (by decide) ?_)
  refine .enclosed _ htemplate (.literalClosed rfl _) (.append_left (by decide) ?_)
  refine .enclosed _ hline (.lineFeed _) (.append_left (by decide) ?_)
  exact .enclosed _ hquoted (.literalClosed rfl _) (.refl _)

/-- Bodies that hold nothing of interest. -/
def dullBodies : Text :=
  fourBodies ['\n'] [] [] []

/-- Bodies that hold names, markers, starts of comments and a quote. -/
def craftedBodies : Text :=
  fourBodies "let A_b: any = ``;\n@ignoreCasing".toList "let C_d //".toList " /* let E_f".toList
    ('\\' :: '\'' :: "@ignoreAny".toList)

theorem sameCode_craftedBodies : Source.SameCode dullBodies craftedBodies :=
  sameCode_fourBodies
    ⟨Source.Enclosure.isBody_of_slash_not_mem (by decide),
      Source.Enclosure.isBody_of_slash_not_mem (by decide), by decide⟩
    ⟨.nil, .of_all (by decide), by decide⟩ ⟨by decide, by decide, by decide⟩
    ⟨.nil, .escaped '\'' (.of_all (by decide)), by decide⟩

/-- Camel case for variables, and no `any`. -/
def strictAnalyzer : Analyzer :=
  ⟨⟨"/p"⟩,
    { Config.standard with
      casing := Casing.unset.set .bindings (some .camel)
      options := { Config.standard.options with noAny := true } },
    .standard⟩

theorem readsCode_strictAnalyzer : strictAnalyzer.table.ReadsCode :=
  RuleTable.usesKindDetectors_standard.isCasing.readsCode RuleTable.eq_noAny_of_mem_standard

theorem craftedBodies_change_one_line :
    strictAnalyzer.table.ReadsCode ∧
    (strictAnalyzer.analyzeFile ⟨"a.ts"⟩ (.ok dullBodies)).SameButLines
      (strictAnalyzer.analyzeFile ⟨"a.ts"⟩ (.ok craftedBodies)) ∧
    (strictAnalyzer.analyzeFile ⟨"a.ts"⟩ (.ok dullBodies)).findings.length = 1 ∧
    (strictAnalyzer.analyzeFile ⟨"a.ts"⟩ (.ok dullBodies)).violations.map (·.location.line) = [3] ∧
    (strictAnalyzer.analyzeFile ⟨"a.ts"⟩ (.ok craftedBodies)).violations.map (·.location.line) =
      [1] :=
  ⟨readsCode_strictAnalyzer, analyzeFile_sameButLines strictAnalyzer readsCode_strictAnalyzer
    ⟨"a.ts"⟩ sameCode_craftedBodies, by decide, by decide, by decide⟩

/-- A rule that finds `TODO` in the stripped text and shows it where the text has it first. -/
def ConstructRule.locatedTodo : ConstructRule where
  name := "no-todo"
  isEnabled _ := true
  check f :=
    if Text.contains "TODO".toList f.stripped then
      [⟨"no-todo", "todo left", f.location "TODO".toList 0⟩]
    else []

/-- A comment, and `TODO` on the next line. -/
def todoBelow (comment : Text) : Text :=
  ['/', '/'] ++ (comment ++ ([] ++ ('\n' :: "TODO".toList)))

/-- A word in a comment moves a finding, if the rule looks its line up in the text. -/
theorem bodies_may_move_findings :
    Source.SameCode (todoBelow []) (todoBelow " TODO".toList) ∧
    ((⟨⟨"/p"⟩, .standard, ⟨[], [.locatedTodo]⟩⟩ : Analyzer).analyzeFile ⟨"a.ts"⟩
      (.ok (todoBelow []))).findings.map (·.location.line) = [2] ∧
    ((⟨⟨"/p"⟩, .standard, ⟨[], [.locatedTodo]⟩⟩ : Analyzer).analyzeFile ⟨"a.ts"⟩
      (.ok (todoBelow " TODO".toList))).findings.map (·.location.line) = [1] := by
  refine ⟨?_, by decide, by decide⟩
  exact .enclosed _ ⟨by decide, by decide, by decide⟩ (.lineFeed _) (.refl _)

end NamingLint
