import NamingLint.Command.Run

/-!
# NamingLint — command line

The files that a run needs are read into a disk, the command runs on that disk, and what it leaves
behind is printed and written: the events, the results, and the report directory.
-/

namespace NamingLint.CommandLine

/-- How the command is called. -/
def usage : String :=
  "Usage: naming-lint [-v] [-c FILE] check [-f text|json|compact] [--no-report]\n" ++
  "                   [--external-report FILE] [PATH]\n" ++
  "       naming-lint [-v] list-rules\n"

/-! ## Reading -/

/-- The target of a link that leads nowhere: no entry has this name. -/
def deadTarget : String := "\x00"

/-- Reads an entry of a directory. A directory is read with everything below it if `entered` is set,
and those below it if `enters` admits their names. A directory that cannot be listed counts as
locked; what cannot be read otherwise is left out. -/
partial def readEntry? (enters : String → Bool) (entered : Bool) (entry : IO.FS.DirEntry) :
    IO (Option Node) := do
  try
    match (← entry.path.symlinkMetadata).type with
    | .file => return some (.file (.ofBytes (← IO.FS.readBinFile entry.path)))
    | .dir => if entered then readDirectory entry else return some (.directory [])
    | .symlink => return some (.link (← linkTarget entry))
    | .other => return none
  catch _ => return none
where
  /-- Reads a directory with everything below it. -/
  readDirectory (entry : IO.FS.DirEntry) : IO (Option Node) := do
    try
      let nodes ← (← entry.path.readDir).toList.filterMapM fun e => do
        return (← readEntry? enters (enters e.fileName) e).map (e.fileName, ·)
      return some (.directory nodes)
    catch _ => return some (.locked [])
  /-- Where a link leads in the end. -/
  linkTarget (entry : IO.FS.DirEntry) : IO String := do
    try return (← IO.FS.realPath entry.path).toString
    catch _ => return deadTarget

/-- The names that lead from the root to a path. -/
def namesOf (d : Disk) (p : Path) : List String :=
  ((Disk.pathOf d.cwd).join p).components.foldl step []
where
  /-- Takes one step. -/
  step (names : List String) : Component → List String
    | .root => []
    | .here => names
    | .up => names.dropLast
    | .name s => names ++ [s]

/-- Puts a node on a disk, with the directories above it. -/
def put (d : Disk) (names : List String) (node : Node) : Disk :=
  match names.getLast?, node with
  | none, .directory entries => { d with entries := entries }
  | none, _ => d
  | some name, _ =>
    let change : Change Unit := do
      Disk.makeDirectories (Disk.pathOf names.dropLast)
      Disk.putNode names.dropLast name node
    (change.run d).2

/-- Reads what stands at some names onto a disk. -/
def copyNames (enters : String → Bool) (d : Disk) (names : List String) : IO Disk := do
  let entry : IO.FS.DirEntry :=
    ⟨(Disk.pathOf names.dropLast).text, names.getLastD "."⟩
  return ((← readEntry? enters true entry).map (put d names)).getD d

/-- Reads what stands at a path onto a disk; where that is a link, also what it leads to. -/
def copy (enters : String → Bool) (d : Disk) (p : Path) : IO Disk := do
  let d' ← copyNames enters d (namesOf d p)
  match d'.node false p with
  | .ok (.link target) => copyNames enters d' (namesOf d' ⟨target⟩)
  | _ => return d'

/-- A disk that holds the working directory only, or nothing if that one is gone. -/
def emptyDisk : IO Disk := do
  try
    let cwd := namesOf ⟨[], []⟩ ⟨(← IO.currentDir).toString⟩
    return put ⟨[], cwd⟩ cwd (.directory [])
  catch _ => return ⟨[], [deadTarget]⟩

/-- Reads what a task needs. The tree is read once the configuration tells what to leave out of it. -/
def prepare (disk : Disk) : Command.Task → IO Disk
  | .listRules => return disk
  | .check o => do
    let config := o.config.getD (o.path.join ⟨Config.fileName⟩)
    let files := config :: o.externalReport.toList
    let first ← files.foldlM (copy fun _ => false) disk
    match Command.loadConfig first o with
    | .error _ => return first
    | .ok c =>
      let report : Path := ⟨Report.directoryName⟩
      let second ← copy (fun _ => false) disk report
      let third ← copy (fun name => !c.ignoresDirectory name) second o.path
      files.foldlM (copy fun _ => false) third

/-! ## Writing -/

/-- Replaces a report directory by the one on a disk. -/
def writeReport (d : Disk) (dir : Path) : IO Unit := do
  try IO.FS.removeDirAll dir.text catch _ => pure ()
  IO.FS.createDirAll dir.text
  for (path, content) in Entries.files dir ((d.directory? dir).getD []) do
    IO.FS.writeFile path.text (String.ofList content)

/-- Does what a run does. -/
def perform (report : Option Path) : Command.Effect → IO Unit
  | .log e => IO.println e.display
  | .print t => IO.print t
  | .change d => report.forM (writeReport d)

/-- Does all that a run does, and says its last words. -/
def publish (o : Command.Outcome) : IO UInt32 := do
  o.effects.forM (perform o.report)
  IO.eprint (o.stderr.getD "")
  return o.exit.toUInt32

end NamingLint.CommandLine

open NamingLint in
/-- Runs the command that the arguments ask for and returns its exit code. -/
def main (args : List String) : IO UInt32 := do
  match Command.Invocation.parse args with
  | .ok i =>
    let disk ← CommandLine.prepare (← CommandLine.emptyDisk) i.task
    CommandLine.publish (i.run disk)
  | .error .help =>
    IO.print CommandLine.usage
    return 0
  | .error .misuse =>
    IO.eprint CommandLine.usage
    return 2
