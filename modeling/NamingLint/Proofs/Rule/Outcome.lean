import NamingLint.Rule.Table

/-!
# NamingLint — what rules say about a file

A casing rule goes through its declarations one by one. It counts each of them once, and lists those
that fail.

A table takes any rule, with any check. What an analysis promises for the rules that come with the
library is often lost for rules of another making. What is asked of the rules then has a name.

* `RuleTable.IsCasing` — the rules about names are casing rules.
* `RuleTable.UsesKindDetectors` — casing rules that look with the detector of their kind.
* `RuleTable.ReportsOwnFiles` — no rule places what it reports in a file other than the one it is
  looking at.

Main results:

* `check_eq` — what a casing rule counts and lists, told at once.
* `reportsOwnFiles_standard`, `usesKindDetectors_standard` — the standard table is as asked.
-/

namespace NamingLint

/-! ## Casing rules -/

namespace CasingRule

/-- What has been said after some more declarations. -/
theorem foldl_record (r : CasingRule) (f : SourceFile) (ds : List Declaration) (o : Outcome) :
    ds.foldl (r.record f) o =
      ⟨⟨o.tally.valid + ds.countP r.passes, o.tally.invalid + ds.countP (!r.passes ·)⟩,
        o.violations ++ (ds.filter (!r.passes ·)).map (r.violation f)⟩ := by
  induction ds generalizing o with
  | nil => simp
  | cons d ds ih =>
    rw [List.foldl_cons, ih, record]
    cases hpass : r.passes d with
    | true => simp [Tally.record, hpass, Nat.add_assoc, Nat.add_comm 1]
    | false => simp [Tally.record, hpass, Nat.add_assoc, Nat.add_comm 1]

/-- The rule counts what passes and what fails, and lists what fails in the order it was found. -/
theorem check_eq (r : CasingRule) (f : SourceFile) :
    r.check f =
      ⟨⟨(r.declarations f).countP r.passes, (r.declarations f).countP (!r.passes ·)⟩,
        ((r.declarations f).filter (!r.passes ·)).map (r.violation f)⟩ := by
  rw [check, foldl_record]
  simp [Outcome.nothing, Tally.zero]

/-- The violations are the declarations that fail. -/
theorem mem_violations_check {r : CasingRule} {f : SourceFile} {v : Violation} :
    v ∈ (r.check f).violations ↔
      ∃ d ∈ r.declarations f, r.passes d = false ∧ v = r.violation f d := by
  simp only [check_eq, List.mem_map, List.mem_filter, Bool.not_eq_true', and_assoc]
  constructor
  · rintro ⟨d, hd, hfails, rfl⟩
    exact ⟨d, hd, hfails, rfl⟩
  · rintro ⟨d, hd, hfails, rfl⟩
    exact ⟨d, hd, hfails, rfl⟩

/-- What fails is counted and listed alike. -/
theorem length_violations_check (r : CasingRule) (f : SourceFile) :
    (r.check f).violations.length = (r.check f).tally.invalid := by
  rw [check_eq]
  simp [List.countP_eq_length_filter]

/-- Every declaration that is found is counted, whatever the convention. -/
theorem total_check (r : CasingRule) (f : SourceFile) :
    (r.check f).tally.total = (r.declarations f).length := by
  rw [check_eq, Tally.total, List.length_eq_countP_add_countP (r.passes ·)]
  simp

/-- A rule of a pair looks for the declarations of its kind. -/
theorem detector_of? {kind : Kind} {convention : Convention} {r : CasingRule}
    (h : CasingRule.of? kind convention = some r) : r.detector = kind.detector := by
  rw [of?, ofDetector?] at h
  split at h
  · simp at h
  · cases h
    rfl

end CasingRule

/-! ## What is asked of a table -/

namespace RuleTable

/-- The rules about names are casing rules. -/
def IsCasing (t : RuleTable) : Prop :=
  ∀ r ∈ t.rules, ∃ c : CasingRule, r = c.toRule

/-- The rules about names are casing rules that look with the detectors of their kinds. -/
def UsesKindDetectors (t : RuleTable) : Prop :=
  ∀ r ∈ t.rules, ∃ c : CasingRule, c.detector = r.kind.detector ∧ r = c.toRule

/-- Rules place what they report in the file that they are looking at. -/
structure ReportsOwnFiles (t : RuleTable) : Prop where
  rules : ∀ r ∈ t.rules, ∀ f, ∀ v ∈ (r.check f).violations, v.location.path = f.path
  constructs : ∀ r ∈ t.constructs, ∀ f, ∀ g ∈ r.check f, g.location.path = f.path

/-- A table with the detectors of the kinds holds casing rules only. -/
theorem UsesKindDetectors.isCasing {t : RuleTable} (h : t.UsesKindDetectors) : t.IsCasing := by
  intro r hr
  obtain ⟨c, -, hc⟩ := h r hr
  exact ⟨c, hc⟩

/-- One more casing rule leaves it so. -/
theorem IsCasing.insert {t : RuleTable} (h : t.IsCasing) (c : CasingRule) :
    (t.insert c).IsCasing := by
  intro r hr
  rcases List.mem_cons.mp hr with rfl | hold
  · exact ⟨c, rfl⟩
  · exact h r (List.mem_filter.mp hold).1

/-- Casing rules and the rule against `any` place all they report in the file. -/
theorem IsCasing.reportsOwnFiles {t : RuleTable} (h : t.IsCasing)
    (hconstructs : ∀ r ∈ t.constructs, r = .noAny) : t.ReportsOwnFiles where
  rules r hr f v hv := by
    obtain ⟨c, rfl⟩ := h r hr
    obtain ⟨d, -, -, rfl⟩ := CasingRule.mem_violations_check.mp hv
    rfl
  constructs r hr f g hg := by
    -- in other languages the rule finds nothing
    rw [hconstructs r hr, ConstructRule.noAny] at hg
    dsimp only at hg
    split at hg
    · obtain ⟨offset, -, rfl⟩ := List.mem_map.mp hg
      rfl
    · simp at hg

/-! ## Tables made from pairs -/

/-- The rules of a table to which rules are added are among the old and the new ones. -/
theorem mem_rules_foldl_insert {rs : List Rule} {t : RuleTable} {r : Rule}
    (h : r ∈ (rs.foldl insert t).rules) : r ∈ t.rules ∨ r ∈ rs := by
  induction rs generalizing t with
  | nil => exact .inl h
  | cons s rs ih =>
    rcases ih h with hmem | hmem
    · rcases List.mem_cons.mp hmem with rfl | hold
      · exact .inr List.mem_cons_self
      · exact .inl (List.mem_filter.mp hold).1
    · exact .inr (List.mem_cons_of_mem s hmem)

/-- Tables made from pairs use the detectors of the kinds. -/
theorem usesKindDetectors_insertPairs {t : RuleTable} (h : t.UsesKindDetectors)
    (pairs : List (Kind × Convention)) : (t.insertPairs pairs).UsesKindDetectors := by
  intro r hr
  rcases mem_rules_foldl_insert hr with hold | hnew
  · exact h r hold
  · obtain ⟨p, -, hp⟩ := List.mem_filterMap.mp hnew
    obtain ⟨c, hc, rfl⟩ := Option.map_eq_some_iff.mp hp
    have hdetector := CasingRule.detector_of? hc
    -- a rule made for a pair has the kind of the pair
    have hkind : c.toRule.kind = p.1 := by
      show c.detector.kind = p.1
      rw [hdetector]
      rfl
    exact ⟨c, by rw [hkind, hdetector], rfl⟩

theorem usesKindDetectors_empty : empty.UsesKindDetectors := by
  intro r hr
  simp [empty] at hr

/-- The standard table uses the detectors of the kinds. -/
theorem usesKindDetectors_standard : standard.UsesKindDetectors :=
  usesKindDetectors_insertPairs usesKindDetectors_empty allPairs

/-- Naming rules leave the construct rules as they are. -/
theorem constructs_insertPairs (t : RuleTable) (pairs : List (Kind × Convention)) :
    (t.insertPairs pairs).constructs = t.constructs := by
  -- for every list of rules, by induction on it
  have hfold : ∀ (rs : List Rule) (t : RuleTable), (rs.foldl insert t).constructs = t.constructs := by
    intro rs
    induction rs with
    | nil => exact fun _ => rfl
    | cons r rs ih => exact fun t => ih (t.insert r)
  exact hfold _ t

/-- A table of naming rules reports the files it is asked about. -/
theorem reportsOwnFiles_insertPairs (pairs : List (Kind × Convention)) :
    (empty.insertPairs pairs).ReportsOwnFiles := by
  apply (usesKindDetectors_insertPairs usesKindDetectors_empty pairs).isCasing.reportsOwnFiles
  intro r hr
  rw [constructs_insertPairs] at hr
  simp [empty] at hr

/-- The one construct rule of the standard table is the rule against `any`. -/
theorem eq_noAny_of_mem_standard : ∀ r ∈ standard.constructs, r = .noAny := by
  intro r hr
  rw [standard, addConstruct, constructs_insertPairs] at hr
  simpa [empty] using hr

/-- The standard table reports the files it is asked about. -/
theorem reportsOwnFiles_standard : standard.ReportsOwnFiles :=
  usesKindDetectors_standard.isCasing.reportsOwnFiles eq_noAny_of_mem_standard

end RuleTable

/-! ## Rules of another making -/

/-- Every line that starts with `enum ` declares a name, the rest of the line, which has to start with
a capital letter. -/
def Rule.capitalEnums : Rule where
  name := "capital-enums"
  kind := .enums
  convention := .pascal
  check f :=
    let names := (f.stripped.lines.zipIdx 1).filterMap fun l =>
      if "enum ".toList.isPrefixOf (Text.trim l.1) then some ((Text.trim l.1).drop 5, l.2) else none
    let passes := fun n : Text × Nat => n.1.head?.any Char.isUpper
    { tally := ⟨names.countP passes, names.countP (!passes ·)⟩
      violations := (names.filter (!passes ·)).map fun n =>
        ⟨String.ofList n.1, .enums, .pascal, ⟨f.path, n.2⟩⟩ }

/-- No line may hold `TODO`, unless the file allows it. -/
def ConstructRule.noTodo : ConstructRule where
  name := "no-todo"
  isEnabled c := c.options.noAny
  marker := some "@allowTodo"
  check f := ((f.stripped.lines.zipIdx 1).filter fun l => Text.contains "TODO".toList l.1).map
    fun l => ⟨"no-todo", "todo left", ⟨f.path, l.2⟩⟩

/-- These two rules. -/
def RuleTable.lineRules : RuleTable :=
  ⟨[.capitalEnums], [.noTodo]⟩

/-- Such rules too may place what they report in the file they are looking at. -/
theorem RuleTable.reportsOwnFiles_lineRules : lineRules.ReportsOwnFiles where
  rules r hr f v hv := by
    rw [List.mem_singleton.mp hr] at hv
    obtain ⟨n, -, rfl⟩ := List.mem_map.mp hv
    rfl
  constructs r hr f g hg := by
    rw [List.mem_singleton.mp hr] at hg
    obtain ⟨l, -, rfl⟩ := List.mem_map.mp hg
    rfl

end NamingLint
