import Mathlib.Data.List.Forall2
import NamingLint.Proofs.Analysis.Independence
import NamingLint.Proofs.Analysis.Stripped
import NamingLint.Proofs.Declaration.Ending
import NamingLint.Proofs.Source.Ending

/-!
# NamingLint — line endings do not matter

A file with a carriage return before each line feed has the same report as the file without them,
with two exceptions. A backslash at the end of a line in a quoted literal escapes the carriage return
and no longer the line feed, so the literal ends there. And the text of an assignment that ends with
its line ends in a carriage return, which no line of the file holds; so the line of the name is told
by its offset, where else the first line that holds the text is shown.

* `SourceFile.Returned` — a file, and the same file with carriage returns.
* `Violation.SameButEnding` — the same violation, on the same line unless it is such an assignment.

Main results:

* `SourceFile.Returned.locate_eq` — the line of a declaration is the same.
* `line_endings_are_irrelevant` — and so is the report of a file.
* `line_endings_matter` — the exceptions occur.
-/

namespace NamingLint

open Text Source

/-! ## First lines -/

namespace SourceFile

/-- Of a match on one line the whole is looked for. -/
theorem needle_of_not_mem {m : Text} (h : '\n' ∉ m) : needle m = m := by
  rw [needle, lines_of_not_mem h]
  split <;> rfl

/-- Of a match on several lines the first one is looked for. -/
theorem needle_of_feed {x : Text} (hx : '\n' ∉ x) (y : Text) :
    needle (x ++ '\n' :: y) = dropReturn x := by
  obtain ⟨ls, hls⟩ := lines_of_feed hx y
  rw [needle, hls, List.headD_cons]

/-- The same line is looked for with either line ending. -/
theorem needle_plain {m : Text} (h : Paired m) : needle (plain m) = needle m := by
  rw [needle, needle, lines_plain h]
  by_cases hfeed : '\n' ∈ m
  · -- the first line ends at the first line feed
    obtain ⟨x, y, rfl, hx⟩ := List.eq_append_cons_of_mem hfeed
    obtain ⟨ls, hls⟩ := lines_of_feed hx y
    rw [hls, List.headD_cons, List.headD_cons]
  · -- without a line feed there is no carriage return either
    have hreturn : '\r' ∉ m := by
      intro hmem
      obtain ⟨x, y, rfl⟩ := List.append_of_mem hmem
      obtain ⟨v, rfl⟩ := Paired.feed_of_return (t := x ++ ['\r']) (by simpa using h) (by simp)
      exact hfeed (by simp)
    rw [plain_of_not_mem hreturn]

/-! ## Files -/

/-- `g` is the file `f` with carriage returns. -/
structure Returned (f g : SourceFile) : Prop where
  path : g.path = f.path
  type : g.type = f.type
  lines : g.lines = f.lines
  return_not_mem : ∀ line ∈ f.lines, '\r' ∉ line
  paired : Paired g.stripped
  plain_stripped : plain g.stripped = f.stripped

/-- A file, and the same file with carriage returns, are related as long as stripping agrees. -/
theorem returned_ofContent (path root : Path) (type : FileType) {t : Text} (hreturn : '\r' ∉ t)
    (hfeeds : feedsOnlyInTemplates none (mark .code t) = true) :
    (ofContent path root type t).Returned (ofContent path root type (withReturns t)) where
  path := rfl
  type := rfl
  lines := by
    show Text.lines (withReturns t) = Text.lines t
    rw [← lines_plain (paired_withReturns hreturn), plain_withReturns hreturn]
  return_not_mem _ hline hmem := hreturn (subset_of_mem_lines hline hmem)
  paired := (strip_withReturns hreturn hfeeds).1
  plain_stripped := (strip_withReturns hreturn hfeeds).2

namespace Returned

variable {f g : SourceFile}

/-- Offsets tell the same line. -/
theorem lineAt_eq (h : f.Returned g) {w x : Text} (hplace : g.stripped = w ++ x) :
    f.lineAt (plainOffset g.stripped (size w)) = g.lineAt (size w) := by
  rw [lineAt, lineAt, ← h.plain_stripped, hplace, lineAt_plain]

/-- Looking a line up gives the same number, since the lines are the same. -/
theorem lineHolding?_eq (h : f.Returned g) : f.lineHolding? = g.lineHolding? := by
  funext needle
  rw [lineHolding?, lineHolding?, h.lines]

/-- No line holds a carriage return. -/
theorem lineHolding?_of_return (h : f.Returned g) {needle : Text} (hmem : '\r' ∈ needle) :
    g.lineHolding? needle = none := by
  rw [lineHolding?, Option.map_eq_none_iff, List.findIdx?_eq_none_iff, h.lines]
  intro line hline
  rw [← Bool.not_eq_true, contains_iff]
  intro hpart
  exact h.return_not_mem line hline (hpart.subset hmem)

/-- The offset of a declaration is on the same line. -/
theorem lineAt_mended (h : f.Returned g) {d : Declaration} (hd : d.StandsIn g.stripped) :
    f.lineAt (d.mended g.stripped).offset = g.lineAt d.offset := by
  obtain ⟨pre, post, hplace, hoffset⟩ := hd.name_at
  show f.lineAt (plainOffset g.stripped d.offset) = _
  rw [hoffset]
  exact h.lineAt_eq (x := d.name ++ post) (by rw [hplace, List.append_assoc])

/-- A match stands in a paired text, together with what follows it. -/
theorem paired_matched (h : f.Returned g) {d : Declaration} (hd : d.StandsIn g.stripped) :
    ∃ after, Paired (d.matched ++ after) := by
  obtain ⟨before, lead, tail, after, hplace, hmatched, -⟩ := hd.place
  have hstripped := h.paired
  rw [hplace, ← hmatched, List.append_assoc] at hstripped
  exact ⟨after, hstripped.append_right⟩

/-- The line of a declaration that does not end inside of a line ending. -/
theorem locate_eq (h : f.Returned g) {d : Declaration} (hd : d.StandsIn g.stripped)
    (hlast : d.matched.getLast? ≠ some '\r') :
    f.locate (d.mended g.stripped).matched (d.mended g.stripped).offset =
      g.locate d.matched d.offset := by
  obtain ⟨after, hpaired⟩ := h.paired_matched hd
  -- the first line of the text is the same, and so are the lines that it is searched in
  have hneedle : needle (d.mended g.stripped).matched = needle d.matched := by
    show needle d.matched.mended = _
    rw [mended_of_ne hlast, needle_plain (hpaired.append_left hlast)]
  rw [locate, locate, hneedle, h.lineAt_mended hd, h.lineHolding?_eq]

/-- A declaration that ends inside of a line ending has the same line or the one that its offset
tells. -/
theorem locate_of_return (h : f.Returned g) {d : Declaration} (hd : d.StandsIn g.stripped)
    (hlast : d.matched.getLast? = some '\r') :
    f.locate (d.mended g.stripped).matched (d.mended g.stripped).offset =
        g.locate d.matched d.offset ∨
      g.locate d.matched d.offset = f.lineAt (d.mended g.stripped).offset := by
  obtain ⟨after, hpaired⟩ := h.paired_matched hd
  obtain ⟨after, rfl⟩ := hpaired.feed_of_return hlast
  by_cases hfeed : '\n' ∈ d.matched
  · -- there is an earlier line ending, and the first line stops there
    left
    obtain ⟨x, y, hsplit, hx⟩ := List.eq_append_cons_of_mem hfeed
    have hclosed : Paired (d.matched ++ ['\n']) := by
      rw [List.append_cons] at hpaired
      exact hpaired.append_left (by simp)
    have hneedle : needle (d.mended g.stripped).matched = needle d.matched := by
      calc needle d.matched.mended = needle (plain (d.matched ++ ['\n'])) := by
            rw [Text.mended, if_pos hlast, plain_append]
            rfl
        _ = needle (x ++ '\n' :: (y ++ ['\n'])) := by rw [needle_plain hclosed, hsplit]; simp
        _ = needle (x ++ '\n' :: y) := by rw [needle_of_feed hx, needle_of_feed hx]
        _ = needle d.matched := by rw [hsplit]
    rw [locate, locate, hneedle, h.lineAt_mended hd, h.lineHolding?_eq]
  · -- all of it is searched for, and not found
    right
    have hmem : '\r' ∈ d.matched := List.mem_of_getLast? hlast
    have hne : d.matched ≠ [] := List.ne_nil_of_mem hmem
    rw [locate, needle_of_not_mem hfeed, if_neg hne, h.lineHolding?_of_return hmem, Option.getD_none,
      h.lineAt_mended hd]

end Returned

end SourceFile

/-! ## Violations -/

/-- The same violation, in a file with the given stripped text and in that file with carriage returns.
The lines are the same, or the violation is about an assignment with nothing more on its line, and in
the file with carriage returns it is on the line of the name. -/
structure Violation.SameButEnding (stripped : Text) (v w : Violation) : Prop
    extends v.SameButLine w where
  line : v.location.line = w.location.line ∨
    ∃ d ∈ declarationsOf assignmentShape stripped, v.kind = .properties ∧
      v.name = String.ofList d.name ∧ d.matched.getLast? = some '\n' ∧
      w.location.line = stripped.lineAt d.offset

section Checks

variable {f g : SourceFile}

/-- A violation is the same in both files, or it is an assignment that ends with its line. -/
theorem CasingRule.violation_returned (h : f.Returned g) {r : CasingRule}
    {d : Declaration} (hd : d ∈ r.kind.declarations g.stripped) :
    (r.violation f (d.mended g.stripped)).SameButEnding f.stripped (r.violation g d) := by
  have hstands : d.StandsIn g.stripped := standsIn_of_mem_declarations hd
  refine ⟨⟨rfl, rfl, rfl, h.path.symm⟩, ?_⟩
  -- only a match that ends between the characters of a line ending is looked up differently
  by_cases hlast : d.matched.getLast? = some '\r'
  · rcases h.locate_of_return hstands hlast with hline | hline
    · exact .inl hline
    · obtain ⟨hkind, hassignment⟩ := assignment_of_return h.paired hd hlast
      refine .inr ⟨d.mended g.stripped, ?_, hkind, rfl, ?_, hline⟩
      · rw [← h.plain_stripped, declarationsOf_plain settled_assignmentShape.steady h.paired]
        exact List.mem_map_of_mem hassignment
      · show d.matched.mended.getLast? = some '\n'
        rw [Text.mended, if_pos hlast, List.getLast?_concat]
  · exact .inl (h.locate_eq hstands hlast)

/-- A casing rule counts the same and lists the same violations, up to such lines. -/
theorem CasingRule.check_returned (h : f.Returned g) {r : CasingRule}
    (hr : r.detector = r.kind.detector) :
    (r.check f).tally = (r.check g).tally ∧
      List.Forall₂ (Violation.SameButEnding f.stripped) (r.check f).violations
        (r.check g).violations := by
  have hg : r.declarations g = r.kind.declarations g.stripped := by
    rw [declarations, hr]
    rfl
  -- the declarations correspond one by one
  have hf : r.declarations f = (r.declarations g).map (Declaration.mended g.stripped) := by
    rw [hg, declarations, hr, ← h.plain_stripped]
    exact declarations_plain r.kind h.paired
  -- the test looks at names
  have hpasses : ∀ d : Declaration, r.passes (d.mended g.stripped) = r.passes d := fun _ => rfl
  refine ⟨?_, ?_⟩
  · simp only [check_eq, hf, List.countP_map, Function.comp_def, hpasses]
  · rw [check_eq, check_eq, hf]
    dsimp only
    rw [List.filter_map, List.map_map, List.forall₂_map_left_iff, List.forall₂_map_right_iff]
    simp only [Function.comp_def, hpasses]
    rw [List.forall₂_same]
    intro d hd
    rw [hg] at hd
    exact r.violation_returned h (List.mem_filter.mp hd).1

/-- A marker has no line ending in it, so it is found in both texts or in neither. -/
theorem Marker.suppresses_returned (h : f.Returned g) (m : Marker) :
    m.suppresses f.stripped = m.suppresses g.stripped := by
  rw [suppresses, suppresses, ← h.plain_stripped]
  cases m <;> exact contains_plain (by decide) (by decide) (by decide) h.paired

/-- The same `any`s are found, at offsets that correspond. -/
theorem ConstructRule.anyOffsets_returned (h : f.Returned g) :
    anyOffsets f.stripped = (anyOffsets g.stripped).map (plainOffset g.stripped) := by
  rw [anyOffsets, anyOffsets, ← h.plain_stripped, occurrences_plain steady_anyShape h.paired,
    List.map_map, List.map_map]
  exact List.map_congr_left fun o ho => nameStart_mended ho

/-- The rule against `any` reports the same, lines included. -/
theorem ConstructRule.check_noAny_returned (h : f.Returned g) : noAny.check f = noAny.check g := by
  show (if mayHoldAny f.type then _ else _) = if mayHoldAny g.type then _ else _
  rw [h.type, anyOffsets_returned h, List.map_map]
  split
  · apply List.map_congr_left
    intro offset hoffset
    obtain ⟨o, ho, rfl⟩ := List.mem_map.mp hoffset
    -- the offset stands in the text, so the line can be compared
    obtain ⟨pre, post, hplace, hstart, -⟩ := exists_of_mem_occurrences ho
    have hline : f.lineAt (plainOffset g.stripped o.nameStart) = g.lineAt o.nameStart := by
      have hname : o.nameStart = size (pre ++ o.found.lead) := by
        rw [Occurrence.nameStart, hstart, size_append]
      rw [hname]
      exact h.lineAt_eq (x := o.found.name ++ o.found.tail ++ post)
        (by rw [hplace, Match.text]; simp)
    rw [Function.comp_apply, anyFinding, anyFinding, hline, h.path]
  · rfl

theorem ConstructCheck.run_noAny_returned (h : f.Returned g) : run f .noAny = run g .noAny := by
  have hmarker : ConstructRule.noAny.foundMarker? f.stripped =
      ConstructRule.noAny.foundMarker? g.stripped := by
    show Option.filter _ (some Marker.any.word) = Option.filter _ (some Marker.any.word)
    have hany := Marker.suppresses_returned h .any
    simp only [Marker.suppresses] at hany
    simp only [Option.filter_some, hany]
  rw [run, run, hmarker, ConstructRule.check_noAny_returned h]

end Checks

/-! ## Reports -/

namespace FileReport

/-- The same report, of a file with the given stripped text and of that file with carriage returns. -/
structure SameButEndings (stripped : Text) (r s : FileReport) : Prop where
  status : r.status = s.status
  tallies : r.tallies = s.tallies
  findings : r.findings = s.findings
  violations : List.Forall₂ (Violation.SameButEnding stripped) r.violations s.violations

/-- Where no assignment ends with its line, the violations are the same. -/
theorem SameButEndings.violations_eq {stripped : Text} {r s : FileReport}
    (h : r.SameButEndings stripped s)
    (hassignments : ∀ d ∈ declarationsOf assignmentShape stripped, d.matched.getLast? ≠ some '\n') :
    r.violations = s.violations := by
  have heq : ∀ v w : Violation, v.SameButEnding stripped w → v = w := by
    intro v w hvw
    rcases hvw.line with hline | ⟨d, hd, -, -, hlast, -⟩
    · exact Violation.ext hvw.name hvw.kind hvw.convention (Location.ext hvw.path hline)
    · exact absurd hlast (hassignments d hd)
  exact List.forall₂_eq_eq_eq ▸ h.violations.imp heq

end FileReport

/-- The whole report of a file, put together from its checks. -/
theorem Analyzer.fullReport_returned {a : Analyzer} {f g : SourceFile}
    (htable : a.table.UsesKindDetectors) (hconstructs : ∀ r ∈ a.table.constructs, r = .noAny)
    (h : f.Returned g) (path : Path) :
    (a.fullReport f path).SameButEndings f.stripped (a.fullReport g path) := by
  obtain ⟨htallies, hviolations⟩ :=
    nameChecks_rel (a := a) (f := f) (g := g) (R := Violation.SameButEnding f.stripped) (by
      intro r hr
      obtain ⟨c, hdetector, rfl⟩ := htable r hr
      exact c.check_returned h hdetector)
  -- findings are located by their offsets alone, so they are the same and not only alike
  have hchecks : a.constructChecks f = a.constructChecks g := by
    apply constructChecks_eq
    intro r hr
    rw [hconstructs r hr]
    exact ConstructCheck.run_noAny_returned h
  exact ⟨rfl, htallies, congrArg (List.flatMap ConstructCheck.findings) hchecks, hviolations⟩

/-- Writing a carriage return before each line feed of a file changes neither how the analysis of the
file ends nor what it counts and finds, on which lines. Violations stay the same, one by one; only the
line of an assignment with nothing more on its line may change, to that of the name. If there is no
such assignment, all lines stay. This is said of files in which no quoted literal goes on in the next
line, and of tables with rules that come with the library, as the standard one is. -/
theorem line_endings_are_irrelevant (a : Analyzer) (htable : a.table.UsesKindDetectors)
    (hconstructs : ∀ r ∈ a.table.constructs, r = .noAny) (path : Path) {t : Text} (hreturn : '\r' ∉ t)
    (hfeeds : feedsOnlyInTemplates none (mark .code t) = true) :
    (a.analyzeFile path (.ok t)).SameButEndings (strip t)
      (a.analyzeFile path (.ok (withReturns t))) ∧
    ((∀ d ∈ declarationsOf assignmentShape (strip t), d.matched.getLast? ≠ some '\n') →
      (a.analyzeFile path (.ok t)).violations =
        (a.analyzeFile path (.ok (withReturns t))).violations) := by
  have hfiles := SourceFile.returned_ofContent path a.root (.ofPath path) hreturn hfeeds
  have hreports : (a.analyzeFile path (.ok t)).SameButEndings (strip t)
      (a.analyzeFile path (.ok (withReturns t))) := by
    -- the path alone says whether the file is looked into
    rw [Analyzer.analyzeFile, Analyzer.analyzeFile, Analyzer.inspect, Analyzer.inspect]
    split
    · exact ⟨rfl, rfl, rfl, .nil⟩
    · -- the marker is in both files or in neither
      have hmarker := Marker.casing.suppresses_returned hfiles
      by_cases hsuppressed : Marker.casing.suppresses
          (SourceFile.ofContent path a.root (.ofPath path) t).stripped = true
      · rw [Analyzer.report_of_marker hsuppressed, Analyzer.report_of_marker (hmarker ▸ hsuppressed)]
        exact ⟨rfl, rfl, rfl, .nil⟩
      · rw [Analyzer.report_of_no_marker hsuppressed,
          Analyzer.report_of_no_marker (hmarker ▸ hsuppressed)]
        exact Analyzer.fullReport_returned htable hconstructs hfiles path
  exact ⟨hreports, hreports.violations_eq⟩

/-- Camel case for variables and properties, and no `any`. -/
def propertyAnalyzer : Analyzer :=
  ⟨⟨"/p"⟩,
    { Config.standard with
      casing := (Casing.unset.set .bindings (some .camel)).set .properties (some .camel)
      options := { Config.standard.options with noAny := true } },
    .standard⟩

/-- Lines that end inside of a declaration, of a type, of a template, of a comment of either form, and
of an assignment. -/
def brokenLines : Text :=
  "let\nA_b = 1;\nf<\nany>(`y\nz`); // w\n/* this.c_d =\n */ this.c_d\n= 1;".toList

theorem brokenLines_have_the_same_report :
    '\r' ∉ brokenLines ∧ feedsOnlyInTemplates none (mark .code brokenLines) = true ∧
    (propertyAnalyzer.analyzeFile ⟨"a.ts"⟩ (.ok brokenLines)).SameButEndings (strip brokenLines)
      (propertyAnalyzer.analyzeFile ⟨"a.ts"⟩ (.ok (withReturns brokenLines))) ∧
    (propertyAnalyzer.analyzeFile ⟨"a.ts"⟩ (.ok brokenLines)).violations =
      (propertyAnalyzer.analyzeFile ⟨"a.ts"⟩ (.ok (withReturns brokenLines))).violations ∧
    (propertyAnalyzer.analyzeFile ⟨"a.ts"⟩ (.ok brokenLines)).violations.map (·.location.line) =
      [1, 6] ∧
    (propertyAnalyzer.analyzeFile ⟨"a.ts"⟩ (.ok brokenLines)).findings.map (·.location.line) =
      [4] := by
  have hreturn : '\r' ∉ brokenLines := by decide
  have hfeeds : feedsOnlyInTemplates none (mark .code brokenLines) = true := by decide
  obtain ⟨hsame, hviolations⟩ := line_endings_are_irrelevant propertyAnalyzer
    RuleTable.usesKindDetectors_standard RuleTable.eq_noAny_of_mem_standard ⟨"a.ts"⟩ hreturn hfeeds
  exact ⟨hreturn, hfeeds, hsame, hviolations (by decide), by decide, by decide⟩

/-- A quoted literal that goes on in the next line ends where it has a carriage return, and what
follows is taken for code. -/
def continuedLiteral : Text :=
  "\"\\\nlet a_b = 1;\"".toList

/-- An assignment with nothing more on its line, and a comment that looks like it. -/
def assignmentAtLineEnd : Text :=
  "// this.a_b =\nthis.a_b =\n1;".toList

/-- The exceptions occur. -/
theorem line_endings_matter :
    ((propertyAnalyzer.analyzeFile ⟨"a.ts"⟩ (.ok continuedLiteral)).violations.length = 0 ∧
      (propertyAnalyzer.analyzeFile ⟨"a.ts"⟩ (.ok (withReturns continuedLiteral))).violations.length =
        1) ∧
    (propertyAnalyzer.analyzeFile ⟨"a.ts"⟩ (.ok assignmentAtLineEnd)).violations.map
      (·.location.line) = [1] ∧
    (propertyAnalyzer.analyzeFile ⟨"a.ts"⟩ (.ok (withReturns assignmentAtLineEnd))).violations.map
      (·.location.line) = [2] := by
  decide

end NamingLint
