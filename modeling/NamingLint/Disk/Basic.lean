import NamingLint.Path

/-!
# NamingLint — disks

A disk is a tree of files, directories and symbolic links, with a working directory. It refuses
paths that are too long, and some of its directories may be locked: they are there, but nobody may
look into them. The working directory may be gone.

* `Node` — an entry of the tree.
* `Disk.resolve` — follows a path through the tree, links included, to a `Place`: something that
  exists, or a free name in a directory that exists.
* `Disk.read` — the text of a file.
* `Disk.workingDirectory` — the path of the working directory, if it is still there.
-/

namespace NamingLint

/-! ## Trees -/

/-- Why a disk refuses something. -/
inductive DiskError where
  | notFound
  | accessDenied
  | alreadyExists
  | notDirectory
  | isDirectory
  | invalidArgument
  | nameTooLong
  | notEmpty
  | tooManyLinks
  /-- The bytes of a file are no text. -/
  | notText
  /-- A path with a zero character. -/
  | zeroInPath
  deriving DecidableEq, Repr

namespace DiskError

/-- The wording of an error. -/
def message : DiskError → String
  | notFound => "No such file or directory (os error 2)"
  | accessDenied => "Permission denied (os error 13)"
  | alreadyExists => "File exists (os error 17)"
  | notDirectory => "Not a directory (os error 20)"
  | isDirectory => "Is a directory (os error 21)"
  | invalidArgument => "Invalid argument (os error 22)"
  | nameTooLong => "File name too long (os error 36)"
  | notEmpty => "Directory not empty (os error 39)"
  | tooManyLinks => "Too many levels of symbolic links (os error 40)"
  | notText => "stream did not contain valid UTF-8"
  | zeroInPath => "file name contained an unexpected NUL byte"

end DiskError

/-- What a file holds. -/
inductive Content where
  | text (t : Text)
  /-- Bytes that are no UTF-8 text. -/
  | binary
  deriving DecidableEq, Repr

namespace Content

/-- The content that some bytes are. -/
def ofBytes (bytes : ByteArray) : Content :=
  match String.fromUTF8? bytes with
  | some s => .text s.toList
  | none => .binary

/-- The text of a file. -/
def read : Content → Except DiskError Text
  | text t => .ok t
  | binary => .error .notText

end Content

/-- An entry of a tree. -/
inductive Node where
  | file (content : Content)
  | directory (entries : List (String × Node))
  /-- A directory that may be neither listed nor entered. -/
  | locked (entries : List (String × Node))
  | link (target : String)
  deriving Repr

/-- The entries of a directory, in the order in which it lists them. -/
abbrev Entries := List (String × Node)

namespace Entries

/-- The entries of the directory that a list of names leads to, without links. -/
def descend : List String → Entries → Option Entries
  | [], es => some es
  | n :: ns, es =>
    match es.lookup n with
    | some (.directory inner) => descend ns inner
    | _ => none

/-- Changes the entries of the directory that a list of names leads to. -/
def modifyAt (f : Entries → Entries) : List String → Entries → Entries
  | [], es => f es
  | n :: ns, es =>
    es.map fun e =>
      match e with
      | (m, .directory inner) => if m = n then (m, .directory (modifyAt f ns inner)) else e
      | _ => e

/-- Puts a node under a name; it takes the place of one that has the name. -/
def put (name : String) (node : Node) (es : Entries) : Entries :=
  if es.any fun e => e.1 = name then es.map fun e => if e.1 = name then (name, node) else e
  else es ++ [(name, node)]

/-- Removes a name. -/
def remove (name : String) (es : Entries) : Entries :=
  es.filter fun e => e.1 ≠ name

end Entries

/-- A tree with a working directory. -/
structure Disk where
  /-- The entries of the root directory. -/
  entries : Entries
  /-- Names that lead from the root to the working directory. -/
  cwd : List String
  deriving Repr

/-! ## Paths on a disk -/

/-- Where a path leads. -/
inductive Place where
  /-- Something that exists, with the names that lead to it. -/
  | existing (names : List String) (node : Node)
  /-- A free name in a directory. -/
  | vacant (parent : List String) (name : String)
  deriving Repr

/-- The steps of a path. -/
structure Route where
  isAbsolute : Bool
  /-- The segments between slashes, empty ones left out. -/
  steps : List String
  /-- Does the path end in a slash? Then it leads to a directory. -/
  endsInSlash : Bool
  deriving DecidableEq, Repr

/-- The steps of a path. -/
def Route.ofText (t : Text) : Route where
  isAbsolute := t.head? = some '/'
  steps := ((t.splitOn '/').filter (· ≠ [])).map String.ofList
  endsInSlash := t.getLast? = some '/'

namespace Disk

/-- The longest name of an entry, in bytes. -/
def longestName : Nat := 255

/-- The longest path, in bytes. -/
def longestPath : Nat := 4095

/-- Is a path too long to be accepted? -/
def isTooLong (p : Path) : Bool :=
  longestPath < Text.size p.text.toList

/-- How many links a path may pass. -/
def linkLimit : Nat := 40

/-- Follows steps from a directory. `onLink` says how to go on from a directory, with what steps, and
whether a directory is wanted, where a link is passed. The last link is passed only if `followLast`
is set or a directory is wanted. -/
def follow (root : Entries) (followLast : Bool)
    (onLink : List String → List String → Bool → Except DiskError Place) (wantsDirectory : Bool) :
    List String → List String → Except DiskError Place
  | dir, [] =>
    match root.descend dir with
    | some es => .ok (.existing dir (.directory es))
    | none => .error .notFound
  | dir, step :: steps =>
    if step = "." then follow root followLast onLink wantsDirectory dir steps
    else if step = ".." then follow root followLast onLink wantsDirectory dir.dropLast steps
    else if longestName < step.utf8ByteSize then .error .nameTooLong
    else
      match (root.descend dir).bind fun es => es.lookup step with
      | none =>
        if steps = [] ∧ (root.descend dir).isSome then .ok (.vacant dir step) else .error .notFound
      | some (.directory _) => follow root followLast onLink wantsDirectory (dir ++ [step]) steps
      | some (.locked es) =>
        if steps = [] then .ok (.existing (dir ++ [step]) (.locked es)) else .error .accessDenied
      | some (.file c) =>
        if steps = [] ∧ !wantsDirectory then .ok (.existing (dir ++ [step]) (.file c))
        else .error .notDirectory
      | some (.link target) =>
        if steps = [] ∧ !wantsDirectory ∧ !followLast then
          .ok (.existing (dir ++ [step]) (.link target))
        else
          let route := Route.ofText target.toList
          onLink (if route.isAbsolute then [] else dir) (route.steps ++ steps)
            (wantsDirectory || (steps = [] && route.endsInSlash))

/-- Follows steps from a directory, past at most `links` links. -/
def followLinks (root : Entries) (followLast : Bool) :
    Nat → List String → List String → Bool → Except DiskError Place
  | 0, dir, steps, wantsDirectory =>
    follow root followLast (fun _ _ _ => .error .tooManyLinks) wantsDirectory dir steps
  | links + 1, dir, steps, wantsDirectory =>
    follow root followLast (followLinks root followLast links) wantsDirectory dir steps

/-- Where a route leads. -/
def resolveRoute (d : Disk) (followLast : Bool) (r : Route) : Except DiskError Place :=
  followLinks d.entries followLast linkLimit (if r.isAbsolute then [] else d.cwd) r.steps
    r.endsInSlash

/-- The route of a path, if it is one that a disk accepts. -/
def route (p : Path) : Except DiskError Route :=
  if p.text = "" then .error .notFound
  else if p.text.toList.contains '\x00' then .error .zeroInPath
  else if isTooLong p then .error .nameTooLong
  else .ok (Route.ofText p.text.toList)

/-- Where a path leads. The last link is passed if `followLast` is set. -/
def resolve (d : Disk) (followLast : Bool) (p : Path) : Except DiskError Place :=
  (route p).bind (d.resolveRoute followLast)

/-! ## Reading -/

/-- What stands at a path. -/
def node (d : Disk) (followLast : Bool) (p : Path) : Except DiskError Node :=
  match d.resolve followLast p with
  | .ok (.existing _ node) => .ok node
  | .ok (.vacant _ _) => .error .notFound
  | .error e => .error e

/-- The text of the file at a path. -/
def read (d : Disk) (p : Path) : Except DiskError Text :=
  match d.node true p with
  | .ok (.file c) => c.read
  | .ok (.directory _) => .error .isDirectory
  | .ok (.locked _) => .error .accessDenied
  | .ok (.link _) => .error .notFound
  | .error e => .error e

/-- Does a path lead to something? -/
def hasNode (d : Disk) (p : Path) : Bool :=
  match d.node true p with
  | .ok _ => true
  | .error _ => false

/-- Does a path lead to a directory, locked or not? -/
def hasDirectory (d : Disk) (p : Path) : Bool :=
  match d.node true p with
  | .ok (.directory _) => true
  | .ok (.locked _) => true
  | _ => false

/-- The entries of the directory at a path, if there is one that may be listed. -/
def directory? (d : Disk) (p : Path) : Option Entries :=
  match d.node true p with
  | .ok (.directory es) => some es
  | _ => none

/-- The path of the directory that some names lead to. -/
def pathOf (names : List String) : Path :=
  ⟨"/" ++ "/".intercalate names⟩

/-- The path of the working directory, which may have been removed. -/
def workingDirectory (d : Disk) : Except DiskError Path :=
  if (d.entries.descend d.cwd).isSome then .ok (pathOf d.cwd) else .error .notFound

end Disk

mutual

/-- The text files below some entries, each with its path from there on. -/
def Entries.files (base : Path) : Entries → List (Path × Text)
  | [] => []
  | (name, node) :: es => node.files (base.join ⟨name⟩) ++ Entries.files base es

/-- The text files at and below a node that has a path. -/
def Node.files (path : Path) : Node → List (Path × Text)
  | .file (.text t) => [(path, t)]
  | .file .binary => []
  | .link _ => []
  | .locked _ => []
  | .directory es => Entries.files path es

end

end NamingLint
