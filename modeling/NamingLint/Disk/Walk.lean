import NamingLint.Config.Basic
import NamingLint.Disk.Basic

/-!
# NamingLint — walks

A walk visits everything below a directory. It does not enter directories that the configuration
ignores, passes over files that it ignores, and does not follow links below its start. It goes on
where a directory cannot be listed.

* `Entries.visits` — the visits below some entries.
* `Disk.walk` — the visits of a walk from a path.
-/

namespace NamingLint

/-- What a walk meets. -/
inductive Visit where
  /-- A file to be looked at. -/
  | file (path : Path) (content : Content)
  /-- An entry that the configuration leaves out. -/
  | ignored (path : Path)
  /-- A directory that cannot be listed. -/
  | refused (path : Path) (error : DiskError)
  deriving DecidableEq, Repr

/-- The text of a file that a walk has met at a path. -/
def Content.readAt (c : Content) (path : Path) : Except DiskError Text :=
  if Disk.isTooLong path then .error .nameTooLong else c.read

mutual

/-- The visits at and below an entry of a directory. -/
def Node.visits (c : Config) (path : Path) (name : String) : Node → List Visit
  | .file content => if c.ignoresFile name then [.ignored path] else [.file path content]
  | .link _ => if c.ignoresFile name then [.ignored path] else []
  | .locked _ =>
    if c.ignoresDirectory name then [.ignored path]
    else [.refused path (if Disk.isTooLong path then .nameTooLong else .accessDenied)]
  | .directory es =>
    if c.ignoresDirectory name then [.ignored path]
    else if Disk.isTooLong path then [.refused path .nameTooLong]
    else Entries.visits c path es

/-- The visits below a directory. -/
def Entries.visits (c : Config) (dir : Path) : Entries → List Visit
  | [] => []
  | (name, node) :: es => node.visits c (dir.join ⟨name⟩) name ++ Entries.visits c dir es

end

/-- The visits of a walk from a path. The start itself is never left out; a link there is followed if
it leads to a directory. -/
def Disk.walk (d : Disk) (c : Config) (start : Path) : Except DiskError (List Visit) :=
  match d.node false start with
  | .error e => .error e
  | .ok (.file content) => .ok [.file start content]
  | .ok (.directory es) => .ok (Entries.visits c start es)
  | .ok (.locked _) => .error .accessDenied
  | .ok (.link _) =>
    match d.node true start with
    | .error e => .error e
    | .ok (.directory es) => .ok (Entries.visits c start es)
    | .ok (.locked _) => .error .accessDenied
    | .ok _ => .ok []

end NamingLint
