import NamingLint.Analysis.Inspection
import NamingLint.Config.Error
import NamingLint.Disk.Walk
import NamingLint.Result.Run

/-!
# NamingLint — analyzers

An analyzer is a root, a configuration and a table of rules.

* `Analyzer.inspect` — looks into one file.
* `Analyzer.analyzeDirectory` — everything below a directory: the result and what is logged.
* `Disk.loadConfig` — a configuration from a file.
-/

namespace NamingLint

/-- What to check, how, and from where paths are shown. -/
structure Analyzer where
  root : Path
  config : Config
  table : RuleTable

/-! ## Setting up -/

/-- Why an analyzer cannot be had. -/
inductive AnalyzerError where
  /-- The working directory cannot be told. -/
  | disk (error : DiskError)
  | noConfig
  | config (error : ConfigError)
  deriving DecidableEq, Repr

namespace AnalyzerError

/-- The wording of an error. -/
def message : AnalyzerError → String
  | disk e => s!"IO error: {e.message}"
  | noConfig => "No analysis configuration supplied"
  | config e => s!"Configuration error: {e.message}"

end AnalyzerError

/-- The configuration in a file. -/
def Disk.loadConfig (d : Disk) (path : Path) : Except ConfigError Config :=
  match d.read path with
  | .ok t => Config.parse t
  | .error .notFound => .error (.missing path)
  | .error e => .error (.unreadable path e.message)

/-- The configuration in the root of a project. -/
def Disk.loadProjectConfig (d : Disk) (root : Path) : Except ConfigError Config :=
  d.loadConfig (root.join ⟨Config.fileName⟩)

namespace Analyzer

/-- The path of a root that may be given relative to the working directory. -/
def rootPath (d : Disk) (root : Path) : Except DiskError Path :=
  if root.isAbsolute then .ok root
  else if root.same ⟨"."⟩ then d.workingDirectory
  else d.workingDirectory.map (·.join root)

/-- The analyzer of a root. -/
def build (d : Disk) (root : Path) (config : Option Config) (table : RuleTable) :
    Except AnalyzerError Analyzer :=
  match config with
  | none => .error .noConfig
  | some c =>
    match rootPath d root with
    | .ok path => .ok ⟨path, c, table⟩
    | .error e => .error (.disk e)

/-- The configured pairs that no rule checks, in report order. -/
def gaps (a : Analyzer) : List Gap :=
  (a.config.enabled.filter fun p => !a.table.implements p.1 p.2).map fun p => ⟨p.1, p.2⟩

/-! ## Files -/

/-- What comes of the configured pairs in a file. -/
def nameChecks (a : Analyzer) (f : SourceFile) : List NameCheck :=
  a.config.enabled.map (NameCheck.run a.table f)

/-- What comes of the enabled construct rules in a file. -/
def constructChecks (a : Analyzer) (f : SourceFile) : List ConstructCheck :=
  (a.table.constructs.filter (·.isEnabled a.config)).map (ConstructCheck.run f)

/-- Looks into a readable source file. -/
def inspectSource (a : Analyzer) (f : SourceFile) : Inspection :=
  if Marker.casing.suppresses f.stripped then .suppressed f
  else .completed f (a.nameChecks f) (a.constructChecks f)

/-- Looks into a file, given what reading it gives. -/
def inspect (a : Analyzer) (path : Path) (content : Except DiskError Text) : Inspection :=
  let type := FileType.ofPath path
  if !type.isSource then .notSource
  else
    match content with
    | .error e => .unreadable e
    | .ok t => a.inspectSource (SourceFile.ofContent path a.root type t)

/-- What is counted and listed about a file. -/
def analyzeFile (a : Analyzer) (path : Path) (content : Except DiskError Text) : FileReport :=
  (a.inspect path content).report path

/-- What is logged about a file. -/
def fileEvents (a : Analyzer) (path : Path) (content : Except DiskError Text) : List Event :=
  (a.inspect path content).events a.config.options path

/-! ## Directories -/

/-- The result before any file. -/
def start (a : Analyzer) : RunResult :=
  { RunResult.empty with gaps := GapSet.ofList a.gaps }

/-- Adds a visit to a result. -/
def absorb (a : Analyzer) (r : RunResult) : Visit → RunResult
  | .file path content => r.absorb (a.analyzeFile path (content.readAt path))
  | .ignored _ => r
  | .refused _ _ => r

/-- The result of a list of visits. -/
def summarize (a : Analyzer) (visits : List Visit) : RunResult :=
  (visits.foldl a.absorb a.start).sort

/-- The result of everything below a directory. -/
def analyzeDirectory (a : Analyzer) (d : Disk) (dir : Path) : RunResult :=
  match d.walk a.config dir with
  | .ok visits => a.summarize visits
  | .error _ => a.summarize []

/-- The result of the whole tree. -/
def analyze (a : Analyzer) (d : Disk) : RunResult :=
  a.analyzeDirectory d a.root

/-! ## Logs -/

/-- The event of a directory that cannot be listed. -/
def refusalEvent (dir : Path) (e : DiskError) : Event :=
  ⟨.warn, s!"Error reading directory {dir.text}: " ++
    s!"IO error for operation on {dir.text}: {e.message}"⟩

/-- What is logged about a visit. -/
def visitEvents (a : Analyzer) : Visit → List Event
  | .file path content => a.fileEvents path (content.readAt path)
  | .ignored path => [⟨.debug, s!"Ignoring: {path.text}"⟩]
  | .refused path e => [refusalEvent path e]

/-- What is logged about everything below a directory. -/
def directoryEvents (a : Analyzer) (d : Disk) (dir : Path) : List Event :=
  a.gaps.map (fun g => ⟨.warn, g.warning⟩) ++
    match d.walk a.config dir with
    | .ok visits => visits.flatMap a.visitEvents
    | .error e => [refusalEvent dir e]

/-- What is logged about the whole tree. -/
def events (a : Analyzer) (d : Disk) : List Event :=
  let r := a.analyze d
  ⟨.info, s!"Starting analysis at {a.root.text}"⟩ :: a.directoryEvents d a.root ++
    [⟨.info, s!"Analysis complete: {r.violations.length} violation(s) in {r.checked} file(s)"⟩]

end Analyzer

/-- What is logged when the standard table is made. -/
def RuleTable.standardEvent : Event :=
  ⟨.debug, s!"Default rule table holds {standard.size} rules"⟩

end NamingLint
