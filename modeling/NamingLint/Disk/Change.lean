import NamingLint.Disk.Basic

/-!
# NamingLint — changes of a disk

A change returns the disk that it leaves behind also where it fails.

* `Disk.makeDirectories` — makes a directory and those above it.
* `Disk.removeTree` — removes a directory with everything below it.
* `Disk.write` — writes a text file.
-/

namespace NamingLint

/-- Something done to a disk. -/
abbrev Change (α : Type) := ExceptT DiskError (StateM Disk) α

namespace Disk

/-- Changes the entries of a directory. -/
def modifyDirectory (names : List String) (f : Entries → Entries) (d : Disk) : Disk :=
  { d with entries := d.entries.modifyAt f names }

/-- Puts a node into a directory. -/
def putNode (parent : List String) (name : String) (node : Node) : Change Unit :=
  modify (modifyDirectory parent (Entries.put name node))

/-- Removes the entry that some names lead to; the root stays. -/
def removeNode (names : List String) : Change Unit :=
  match names.getLast? with
  | none => pure ()
  | some name => modify (modifyDirectory names.dropLast (Entries.remove name))

/-- Where a path leads, as a step of a change. -/
def place (followLast : Bool) (p : Path) : Change Place := do
  liftExcept ((← get).resolve followLast p)
where
  /-- A result that does not touch the disk. -/
  liftExcept {α : Type} (r : Except DiskError α) : Change α :=
    ExceptT.mk (pure r)

/-- A free name at a path, whose last link is not passed and whose slash at the end does not count. -/
def freePlace (p : Path) : Change (List String × String) := do
  let d ← get
  match (route p).bind fun r => d.resolveRoute false { r with endsInSlash := false } with
  | .ok (.vacant parent name) => return (parent, name)
  | .ok (.existing _ _) => throw .alreadyExists
  | .error e => throw e

/-- Makes a directory. -/
def makeDirectory (p : Path) : Change Unit := do
  let (parent, name) ← freePlace p
  putNode parent name (.directory [])

/-- Makes a link. -/
def makeLink (p : Path) (target : String) : Change Unit := do
  let (parent, name) ← freePlace p
  putNode parent name (.link target)

/-- Makes a directory unless there is one. -/
def ensureDirectory (p : Path) : Change Unit := do
  try makeDirectory p
  catch e => if (← get).hasDirectory p then pure () else throw e

/-- Makes a directory; where that fails because a directory above is missing, `above` is done
first. -/
def ensureDirectoryAfter (above : Change Unit) (p : Path) : Change Unit := do
  try ensureDirectory p
  catch e =>
    if e = .notFound then
      above
      ensureDirectory p
    else throw e

/-- Makes the directories of the first `n` components of a path, from the first on. -/
def makeAncestors (components : List Component) : Nat → Change Unit
  | 0 => pure ()
  | n + 1 =>
    ensureDirectoryAfter (makeAncestors components n) (Path.ofComponents (components.take (n + 1)))

/-- Makes a directory and those above it that are missing. -/
def makeDirectories (p : Path) : Change Unit :=
  if p.text = "" then pure ()
  else ensureDirectoryAfter (makeAncestors p.components (p.components.length - 1)) p

/-- Writes a file. -/
def writeContent (p : Path) (c : Content) : Change Unit := do
  match ← place true p with
  | .vacant parent name => putNode parent name (.file c)
  | .existing names (.file _) => putNode names.dropLast (names.getLastD "") (.file c)
  | .existing _ (.directory _) => throw .isDirectory
  | .existing _ (.locked _) => throw .isDirectory
  | .existing _ (.link _) => throw .notFound

/-- Writes a text file. -/
def write (p : Path) (t : Text) : Change Unit :=
  writeContent p (.text t)

/-- Removes an empty directory. The path must end in the directory's own name. -/
def removeDirectory (p : Path) : Change Unit := do
  let d ← get
  match route p with
  | .error e => throw e
  | .ok r =>
    match d.resolveRoute false { r with endsInSlash := false } with
    | .ok (.existing names (.directory _)) =>
      match r.steps.getLast? with
      | some "." => throw .invalidArgument
      | some ".." => throw .notEmpty
      | _ => removeNode names
    | .ok (.existing names (.locked es)) =>
      if es.isEmpty then removeNode names else throw .notEmpty
    | .ok (.existing _ _) => throw .notDirectory
    | .ok (.vacant _ _) => throw .notFound
    | .error e => throw e

end Disk

/-! ## Removing trees -/

mutual

/-- What is left of a node that is removed with everything below it. A locked directory stays, and
with it the directories above it. -/
def Node.leftover : Node → Option Node
  | .file _ => none
  | .link _ => none
  | .locked es => some (.locked es)
  | .directory es =>
    match Entries.leftovers es with
    | [] => none
    | left => some (.directory left)

/-- What is left of entries that are removed one by one, up to the first that stays. -/
def Entries.leftovers : Entries → Entries
  | [] => []
  | (name, node) :: es =>
    match node.leftover with
    | none => Entries.leftovers es
    | some left => (name, left) :: es

end

namespace Disk

/-- Removes a directory with everything below it, or a link. Where the path led through what is
below the directory, it no longer leads to the directory once that is empty; then it is left there,
empty. -/
def removeTree (p : Path) : Change Unit := do
  match ← place false p with
  | .vacant _ _ => throw .notFound
  | .existing _ (.file _) => throw .notDirectory
  | .existing _ (.locked _) => throw .accessDenied
  | .existing names (.link _) => removeNode names
  | .existing names (.directory es) =>
    let left := Entries.leftovers es
    modify (modifyDirectory names fun _ => left)
    if left.isEmpty then
      try removeDirectory p
      catch e => if e = .notFound then pure () else throw e
    else throw .accessDenied

end Disk

end NamingLint
