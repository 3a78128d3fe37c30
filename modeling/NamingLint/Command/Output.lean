import NamingLint.Command.Arguments
import NamingLint.Form.Result
import NamingLint.Rule.Table

/-!
# NamingLint — printed results

* `printResult` — a result in one of the formats.
* `printRules` — the rules of a table.
-/

namespace NamingLint.Command

/-! ## Colours -/

/-- The sequence that sets a colour. -/
def colour (code : Nat) : String :=
  s!"\x1b[{code}m"

/-- Red. -/
def red : String := colour 31

/-- Green. -/
def green : String := colour 32

/-- Yellow. -/
def yellow : String := colour 33

/-- The sequence that ends a colour. -/
def plain : String := colour 0

/-! ## Results -/

/-- Does a result fail the run? -/
def failed (r : RunResult) : Bool :=
  r.hasViolations || !r.findings.isEmpty

/-- A block of the text format. -/
def block (title message : String) : String :=
  s!"{title}\n  {red}error{plain}: {message}\n\n"

/-- A violation in the text format. -/
def violationBlock (v : Violation) : String :=
  block s!"{v.kind.label}-naming at {v.location.display}"
    s!"`{v.name}` does not follow {v.convention.label}"

/-- A finding in the text format. -/
def findingBlock (f : Finding) : String :=
  block s!"{f.rule} at {f.location.display}" f.message

/-- The colour of the last line: red if the run fails, yellow if something went unchecked. -/
def verdictColour (r : RunResult) : String :=
  if failed r then red else if r.gaps.toList.isEmpty then green else yellow

/-- The last line of the text format. -/
def verdict (r : RunResult) : String :=
  s!"{verdictColour r}Found {r.violations.length} violation(s), " ++
    s!"{r.findings.length} finding(s) in {r.checked} file(s){plain}\n"

/-- A violation in the compact format. -/
def violationLine (v : Violation) : String :=
  s!"{v.location.display}: [{v.kind.label}] {v.name} expected {v.convention.label}\n"

/-- A result in a format. -/
def printResult (r : RunResult) : Format → String
  | .text =>
    String.join (r.violations.map violationBlock) ++ String.join (r.findings.map findingBlock) ++
      r.summary ++ "\n" ++ verdict r
  | .json => (RunResult.codec.write r).pretty ++ "\n"
  | .compact =>
    String.join (r.violations.map violationLine) ++
      String.join (r.findings.map fun f => f.display ++ "\n")

/-! ## Rules -/

/-- A row of the table of rules. -/
def ruleRow (kind convention rule description : String) : String :=
  Text.padEnd 12 kind ++ " " ++ Text.padEnd 12 convention ++ " " ++ Text.padEnd 14 rule ++ " " ++
    description ++ "\n"

/-- The row of a kind and a convention. -/
def pairRow (t : RuleTable) (p : Kind × Convention) : String :=
  match t.lookup p.1 p.2 with
  | some rule => ruleRow p.1.label p.2.label rule.name rule.description
  | none => ruleRow p.1.label p.2.label "-" "reserved, not checked"

/-- The rules of a table. -/
def printRules (t : RuleTable) : String :=
  "Naming rules:\n\n" ++
  ruleRow "Kind" "Convention" "Rule" "Description" ++
  String.ofList (List.replicate 80 '-') ++ "\n" ++
  String.join (RuleTable.allPairs.map (pairRow t)) ++
  "\nConstruct rules:\n\n" ++
  String.join (t.constructs.map fun r => s!"  {Text.padEnd 12 r.name} {r.description}\n") ++
  "\nConventions are assigned per kind in .labinsight, e.g.:\n" ++
  "  \x7b \"casing\": \x7b \"variableCasing\": \"camelCase\", " ++
    "\"classCasing\": \"pascalCase\" \x7d \x7d\n" ++
  "Set \"options\": \x7b \"noAny\": true \x7d to enable no-any.\n"

end NamingLint.Command
