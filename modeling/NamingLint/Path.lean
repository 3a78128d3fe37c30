import NamingLint.Text.Basic

/-!
# NamingLint — paths

A path is kept as it was written and understood through its components.

* `Path.components` — the root, a leading `.`, every `..` and every name; repeated slashes, other
  `.` segments and a slash at the end do not count.
* `Path.compare` — paths are ordered component by component.
* `Path.join`, `Path.relativeTo?`, `Path.extension?` — building and taking apart.
-/

namespace NamingLint

/-- A path as it was written. -/
@[ext] structure Path where
  text : String
  deriving DecidableEq, Repr

/-- One step of a path. -/
inductive Component where
  /-- The root directory. -/
  | root
  /-- A leading `.`. -/
  | here
  /-- `..` -/
  | up
  | name (name : String)
  deriving DecidableEq, Repr

namespace Component

/-- The root comes first, then `.`, then `..`, then names. -/
def rank : Component → Nat
  | root => 0
  | here => 1
  | up => 2
  | name _ => 3

/-- The name of a component that has one, empty otherwise. -/
def nameD : Component → String
  | name s => s
  | _ => ""

/-- Order by rank, then by name. -/
def compare (a b : Component) : Ordering :=
  (Ord.compare a.rank b.rank).then (Ord.compare a.nameD b.nameD)

/-- The component a segment between slashes stands for, if any. -/
def ofSegment? (s : Text) : Option Component :=
  if s = [] ∨ s = ['.'] then none
  else if s = ['.', '.'] then some .up
  else some (.name (String.ofList s))

end Component

namespace Path

/-- Does the path start at the root directory? -/
def isAbsolute (p : Path) : Bool :=
  p.text.toList.head? = some '/'

/-- The first component if it is the root or a leading `.`, and the text after it. -/
def start (t : Text) : Option Component × Text :=
  match t with
  | '/' :: rest => (some .root, rest)
  | ['.'] => (some .here, [])
  | '.' :: '/' :: rest => (some .here, '/' :: rest)
  | _ => (none, t)

/-- The components of a path. -/
def components (p : Path) : List Component :=
  let (first, body) := start p.text.toList
  first.toList ++ (Text.splitOn '/' body).filterMap Component.ofSegment?

/-- A path with the given components. -/
def ofComponents (cs : List Component) : Path :=
  let segment : Component → String
    | .root => ""
    | .here => "."
    | .up => ".."
    | .name s => s
  match cs with
  | [.root] => ⟨"/"⟩
  | _ => ⟨"/".intercalate (cs.map segment)⟩

/-- Lexicographic comparison of component lists. -/
def compareComponents : List Component → List Component → Ordering
  | [], [] => .eq
  | [], _ :: _ => .lt
  | _ :: _, [] => .gt
  | a :: as, b :: bs => (a.compare b).then (compareComponents as bs)

/-- Comparison by components. -/
def compare (p q : Path) : Ordering :=
  compareComponents p.components q.components

/-- Do two paths have the same components? -/
def same (p q : Path) : Bool :=
  p.components = q.components

/-- `q` seen from `p`: an absolute `q` stands for itself, any other is put behind `p`, with a slash
between unless `p` is empty or ends in one. -/
def join (p q : Path) : Path :=
  if q.isAbsolute then q
  else
    match p.text.toList.getLast? with
    | none => q
    | some '/' => ⟨p.text ++ q.text⟩
    | some _ => ⟨p.text ++ "/" ++ q.text⟩

/-- `Component.ofSegment?` has nothing to say about this segment. -/
def isVoid (s : Text) : Bool :=
  (Component.ofSegment? s).isNone

/-- Drops segments up to and including the `n`-th one that is a component. -/
def dropComponents : Nat → List Text → List Text
  | 0, ss => ss
  | _ + 1, [] => []
  | n + 1, s :: ss => if isVoid s then dropComponents (n + 1) ss else dropComponents n ss

/-- Drops void segments at the end. -/
def dropVoidEnd (ss : List Text) : List Text :=
  (ss.reverse.dropWhile isVoid).reverse

/-- Joins segments by slashes. -/
def joinSegments (ss : List Text) : Text :=
  ['/'].intercalate ss

/-- The text of a path after its first `n` components: it starts at a component and keeps
everything up to the last one. -/
def textAfter (n : Nat) (t : Text) : Text :=
  let (first, body) := start t
  let segments := Text.splitOn '/' body
  if n = 0 then
    t.take (t.length - body.length) ++ joinSegments (dropVoidEnd segments)
  else
    joinSegments (dropVoidEnd ((dropComponents (n - first.toList.length) segments).dropWhile isVoid))

/-- The rest of `p` if its components start with those of `root`. -/
def relativeTo? (p root : Path) : Option Path :=
  if root.components.isPrefixOf p.components then
    some ⟨String.ofList (textAfter root.components.length p.text.toList)⟩
  else none

/-- `p` seen from `root` where possible, `p` itself otherwise. -/
def relativeTo (p root : Path) : Path :=
  (p.relativeTo? root).getD p

/-- The last component if it is a name. -/
def fileName? (p : Path) : Option String :=
  match p.components.getLast? with
  | some (.name s) => some s
  | _ => none

/-- What stands after the last dot of the file name; a name without a dot, or with its only dot in
front, has no extension. -/
def extension? (p : Path) : Option String := do
  let name ← p.fileName?
  let ending := name.toList.reverse.takeWhile (· ≠ '.')
  let stem := name.toList.length - ending.length - 1
  if stem = 0 then none else some (String.ofList ending.reverse)

end Path

end NamingLint
