import NamingLint.Analysis.Analyzer
import NamingLint.Command.Output
import NamingLint.Report.Artifact

/-!
# NamingLint — running a command

A command takes a disk and gives an outcome: its exit code and what it does, in order, which is to
note events, to print results and to change the disk.

* `check` — loads the configuration and the report to pass along, analyses, prints, and replaces the
  report directory in the working directory.
* `run` — a whole run, from the arguments on.
-/

namespace NamingLint.Command

/-- Something that a run does. -/
inductive Effect where
  /-- Notes an event. -/
  | log (event : Event)
  /-- Prints a part of the results. -/
  | print (text : String)
  /-- Works on the disk, which is as given afterwards. -/
  | change (disk : Disk)

namespace Effect

/-- The event that is noted. -/
def event? : Effect → Option Event
  | log e => some e
  | _ => none

/-- The text that is printed. -/
def text? : Effect → Option String
  | print t => some t
  | _ => none

/-- The disk that is left behind. -/
def disk? : Effect → Option Disk
  | change d => some d
  | _ => none

/-- Is this not an event that is beyond a level? -/
def isShownAt (level : NamingLint.Level) : Effect → Bool
  | log e => e.isUpTo level
  | _ => true

end Effect

/-- What a run does. -/
structure Outcome where
  exit : Nat
  /-- What the run does, in order. -/
  effects : List Effect
  /-- The last words of a run that failed; none where the arguments make no sense. -/
  stderr : Option String
  /-- The disk that the run starts with. -/
  start : Disk
  /-- The report directory, if it was replaced. -/
  report : Option Path := none

namespace Outcome

/-- The results that are printed. -/
def stdout (o : Outcome) : String :=
  String.join (o.effects.filterMap Effect.text?)

/-- What is noted. -/
def events (o : Outcome) : List Event :=
  o.effects.filterMap Effect.event?

/-- The disk that the run leaves behind. -/
def disk (o : Outcome) : Disk :=
  ((o.effects.filterMap Effect.disk?).getLast?).getD o.start

end Outcome

/-! ## Fatal errors -/

/-- An error that ends a run: what was being done, and the causes, outermost first. -/
structure Fatal where
  context : String
  causes : List String

namespace Fatal

/-- A message with an indentation before its first line and another one before the others. -/
def indented (first others message : String) : String :=
  first ++ ("\n" ++ others).intercalate
    ((Text.splitOn '\n' message.toList).map String.ofList)

/-- Causes with their numbers. -/
def numbered : Nat → List String → String
  | _, [] => ""
  | n, c :: cs =>
    indented (Text.padStart 5 (toString n) ++ ": ") "       " c ++ "\n" ++ numbered (n + 1) cs

/-- The last words of a run. A single cause stands without a number. -/
def message (f : Fatal) : String :=
  match f.causes with
  | [] => s!"Error: {f.context}\n"
  | [c] => s!"Error: {f.context}\n\nCaused by:\n" ++ indented "    " "    " c ++ "\n"
  | cs => s!"Error: {f.context}\n\nCaused by:\n{numbered 0 cs}"

end Fatal

/-- The causes of a configuration that cannot be had. -/
def configCauses (e : ConfigError) : List String :=
  match e with
  | .unreadable _ error => [e.message, error]
  | _ => [e.message]

/-- The causes of an analyzer that cannot be had. -/
def analyzerCauses (e : AnalyzerError) : List String :=
  match e with
  | .disk error => [e.message, error.message]
  | .noConfig => [e.message]
  | .config error => e.message :: configCauses error

/-! ## Check -/

/-- The configuration to use: the one named, or the one in the root. -/
def loadConfig (d : Disk) (o : CheckOptions) : Except Fatal Config :=
  match o.config with
  | some path =>
    (d.loadConfig path).mapError fun e => ⟨s!"Failed to load config: {path.text}", configCauses e⟩
  | none =>
    (d.loadProjectConfig o.path).mapError fun e =>
      ⟨s!"Failed to load config from {o.path.text}", configCauses e⟩

/-- The report of another tool. -/
def loadExternal (d : Disk) (path : Path) : Except Fatal Json.Value :=
  match d.read path with
  | .error e => .error ⟨s!"Failed to read external report: {path.text}", [e.message]⟩
  | .ok t =>
    (Json.Value.parse t).mapError fun f =>
      ⟨s!"External report is not valid JSON: {path.text}", [f.describe t]⟩

/-- Everything that has to be read before an analysis. -/
def load (d : Disk) (o : CheckOptions) : Except Fatal (Config × Option Json.Value) := do
  let config ← loadConfig d o
  match o.externalReport with
  | none => return (config, none)
  | some path => return (config, some (← loadExternal d path))

/-- The exit code of an analysis. -/
def exitCode (r : RunResult) : Nat :=
  if failed r then 1 else 0

/-- Analyses and prints. -/
def announce (a : Analyzer) (d : Disk) (format : Format) : List Effect :=
  .log RuleTable.standardEvent ::
  .log ⟨.info, s!"Analyzing {a.root.text} with {a.table.size} rules"⟩ ::
  (a.events d).map .log ++
  [.print (printResult (a.analyze d) format)]

/-- A run that ends with an error, after some effects. -/
def fail (d : Disk) (effects : List Effect) (f : Fatal) : Outcome :=
  { exit := 1, effects := effects, stderr := some f.message, start := d }

/-- Writes the report of a result, after what was shown. -/
def writeReport (d : Disk) (result : RunResult) (external : Option Json.Value)
    (shown : List Effect) : Outcome :=
  match d.workingDirectory with
  | .error e => fail d shown ⟨"Failed to resolve working directory", [e.message]⟩
  | .ok cwd =>
    let dir := cwd.join ⟨Report.directoryName⟩
    match (Report.write dir result external).run d with
    | (.ok _, after) =>
      { exit := exitCode result, effects := shown ++ [.change after, .log (Report.writtenEvent dir)],
        stderr := some "", start := d, report := some dir }
    | (.error e, after) =>
      { exit := 2, effects := shown ++ [.change after, .log ⟨.error, e.message⟩],
        stderr := some "", start := d }

/-- Analyses, prints, and writes the report. -/
def checkLoaded (d : Disk) (o : CheckOptions) (config : Config) (external : Option Json.Value) :
    Outcome :=
  match Analyzer.build d o.path (some config) RuleTable.standard with
  | .error e =>
    fail d [.log RuleTable.standardEvent] ⟨"Failed to build analyzer", analyzerCauses e⟩
  | .ok analyzer =>
    let result := analyzer.analyze d
    let shown := announce analyzer d o.format
    if o.writesReport then writeReport d result external shown
    else { exit := exitCode result, effects := shown, stderr := some "", start := d }

/-- Runs `check`. -/
def check (d : Disk) (o : CheckOptions) : Outcome :=
  match load d o with
  | .ok (config, external) => checkLoaded d o config external
  | .error f => fail d [] f

/-! ## Whole runs -/

/-- Runs a task. -/
def Task.run (d : Disk) : Task → Outcome
  | .check o => Command.check d o
  | .listRules =>
    { exit := 0, stderr := some "", start := d,
      effects := [.log RuleTable.standardEvent, .print (printRules RuleTable.standard)] }

/-- The level up to which events are shown. -/
def logLevel (verbose : Bool) : NamingLint.Level :=
  if verbose then .debug else .info

/-- Runs a task and keeps the events that are shown. -/
def Invocation.run (d : Disk) (i : Invocation) : Outcome :=
  let outcome := i.task.run d
  { outcome with effects := outcome.effects.filter (·.isShownAt (logLevel i.verbose)) }

/-- A whole run. -/
def run (d : Disk) (args : List String) : Outcome :=
  match Invocation.parse args with
  | .ok i => i.run d
  | .error .misuse => { exit := 2, effects := [], stderr := none, start := d }
  | .error .help => { exit := 0, effects := [], stderr := some "", start := d }

end NamingLint.Command
