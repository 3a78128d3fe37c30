import NamingLint.Proofs.Disk.Leads

/-!
# NamingLint — where paths lead

What a path leads to on a disk, told by trails. A path leads to a directory if its components do; an
entry of a directory is what its last step names there.

* `Disk.LeadsTo` — a path leads to the directory at some names.
* `Disk.EntryAt` — the last step of a path names an entry of a directory.
* `Disk.FreeAt` — that entry is missing.

Main results:

* `directory?_eq_some_iff`, `directory?_eq_none_iff` — the directory at a path.
* `entryAt_of_existing`, `freeAt_of_vacant` — what is found, unless it is a directory, is an entry of a
  directory.
* `EntryAt.unique`, `EntryAt.mono`, `LeadsTo.unique`, `LeadsTo.mono` — there is one such place, and
  it is the same on a disk with more directories and links.
-/

namespace NamingLint

/-- A path that a disk accepts. -/
structure Path.IsAccepted (p : Path) : Prop where
  ne_empty : p.text.toList ≠ []
  no_zero : '\x00' ∉ p.text.toList
  short : Disk.isTooLong p = false

theorem Path.IsAccepted.text_ne {p : Path} (h : p.IsAccepted) : p.text ≠ "" := by
  intro htext
  exact h.ne_empty (by rw [htext]; rfl)

/-- The route of a path. -/
def Path.route (p : Path) : Route :=
  Route.ofText p.text.toList

namespace Disk

/-- An accepted path has the route that its text says. -/
theorem route_eq_ok {p : Path} (h : p.IsAccepted) : route p = .ok p.route :=
  route_eq_ok_iff.mpr ⟨h.ne_empty, h.no_zero, h.short, rfl⟩

/-- Only accepted paths have a route. -/
theorem isAccepted_of_route {p : Path} {r : Route} (h : route p = .ok r) :
    p.IsAccepted ∧ r = p.route := by
  obtain ⟨hne, hzero, hshort, hr⟩ := route_eq_ok_iff.mp h
  exact ⟨⟨hne, hzero, hshort⟩, hr⟩

/-- The directory that a path starts at. -/
def startOf (d : Disk) (p : Path) : List String :=
  if p.components.head? = some .root then [] else d.cwd

/-- An absolute path starts at the root, any other one in the working directory. -/
theorem startOf_eq (d : Disk) (p : Path) :
    (if p.route.isAbsolute then [] else d.cwd) = d.startOf p := by
  rw [Path.route, isAbsolute_route, startOf]
  simp

/-- A path leads to the directory at some names. -/
structure LeadsTo (d : Disk) (p : Path) (names : List String) : Prop where
  accepted : p.IsAccepted
  trail : ∃ n ≤ linkLimit,
    Leads d.entries n (d.startOf p) (p.components.flatMap Component.steps) names

/-- The last step of a path names an entry of the directory `parent`. -/
structure EntryAt (d : Disk) (p : Path) (parent : List String) (name : String) : Prop where
  accepted : p.IsAccepted
  isName : IsNameStep name
  trail : ∃ steps, ∃ n ≤ linkLimit, p.route.steps = steps ++ [name] ∧
    Leads d.entries n (d.startOf p) steps parent

/-- The last step of a path names nothing in the directory `parent`. -/
structure FreeAt (d : Disk) (p : Path) (parent : List String) (name : String) : Prop
    extends EntryAt d p parent name where
  alive : (d.entries.descend parent).isSome
  free : d.entries.nodeAt (parent ++ [name]) = none

section Paths

variable {d d' : Disk} {p : Path} {names parent parent' : List String} {name name' : String}

/-! ## Directories -/

/-- The components of a path lead where its steps do; dots among them go nowhere. -/
theorem leads_steps_iff {root : Entries} {n : Nat} {dir : List String} :
    Leads root n dir (p.components.flatMap Component.steps) names ↔
      Leads root n dir p.route.steps names := by
  rw [← noDots_steps p]
  exact leads_noDots_iff

/-- A directory that is found is where the path leads to, however its end is treated. -/
theorem leadsTo_of_resolveRoute {followLast w : Bool} {es : Entries} (haccepted : p.IsAccepted)
    (h : d.resolveRoute followLast { p.route with endsInSlash := w } =
      .ok (.existing names (.directory es))) :
    d.LeadsTo p names ∧ d.entries.descend names = some es := by
  unfold resolveRoute at h
  dsimp only at h
  rw [startOf_eq] at h
  obtain ⟨⟨n, hn, htrail⟩, hes⟩ := exists_leads_of_directory h
  exact ⟨⟨haccepted, n, hn, leads_steps_iff.mpr htrail⟩, hes⟩

/-- A path resolves to a directory if it leads there. -/
theorem resolve_eq_directory_iff {es : Entries} :
    d.resolve true p = .ok (.existing names (.directory es)) ↔
      d.LeadsTo p names ∧ d.entries.descend names = some es := by
  rw [resolve_eq_ok]
  constructor
  · rintro ⟨r, hr, hplace⟩
    obtain ⟨haccepted, rfl⟩ := isAccepted_of_route hr
    exact leadsTo_of_resolveRoute haccepted hplace
  · rintro ⟨⟨haccepted, n, hn, htrail⟩, hes⟩
    refine ⟨p.route, route_eq_ok haccepted, ?_⟩
    rw [resolveRoute, startOf_eq]
    exact followLinks_eq_directory_iff.mpr ⟨⟨n, hn, leads_steps_iff.mp htrail⟩, hes⟩

/-- What is in the directory that a path leads to. -/
theorem directory?_eq_some_iff {es : Entries} :
    d.directory? p = some es ↔
      ∃ names, d.LeadsTo p names ∧ d.entries.descend names = some es := by
  rw [directory?_eq_some, node_eq_ok]
  constructor
  · rintro ⟨names, h⟩
    exact ⟨names, resolve_eq_directory_iff.mp h⟩
  · rintro ⟨names, h⟩
    exact ⟨names, resolve_eq_directory_iff.mpr h⟩

/-- There is no directory if the path leads to none. -/
theorem directory?_eq_none_iff :
    d.directory? p = none ↔
      ∀ names, d.LeadsTo p names → d.entries.descend names = none := by
  constructor
  · -- a directory there would be found
    intro h names hleads
    rw [Option.eq_none_iff_forall_ne_some]
    intro es hes
    rw [directory?_eq_some_iff.mpr ⟨names, hleads, hes⟩] at h
    simp at h
  · intro h
    rw [Option.eq_none_iff_forall_ne_some]
    intro es hes
    obtain ⟨names, hleads, hdescend⟩ := directory?_eq_some_iff.mp hes
    rw [h names hleads] at hdescend
    simp at hdescend

/-- A path leads to one place at most. -/
theorem LeadsTo.unique {names' : List String} (h : d.LeadsTo p names) (h' : d.LeadsTo p names') :
    names = names' := by
  obtain ⟨n, -, htrail⟩ := h.trail
  obtain ⟨n', -, htrail'⟩ := h'.trail
  exact (htrail.unique htrail').2

theorem startOf_congr (h : d.cwd = d'.cwd) (p : Path) : d.startOf p = d'.startOf p := by
  unfold startOf
  rw [h]

/-- A path still leads there on a disk that keeps directories and links. -/
theorem LeadsTo.mono (h : d.LeadsTo p names) (hways : Entries.KeepsWays d.entries d'.entries)
    (hcwd : d.cwd = d'.cwd) : d'.LeadsTo p names := by
  obtain ⟨n, hn, htrail⟩ := h.trail
  rw [startOf_congr hcwd] at htrail
  exact ⟨h.accepted, n, hn, htrail.mono hways⟩

/-! ## Entries -/

/-- A path names one entry at most. -/
theorem EntryAt.unique (h : d.EntryAt p parent name) (h' : d.EntryAt p parent' name') :
    parent = parent' ∧ name = name' := by
  obtain ⟨steps, n, -, hsteps, htrail⟩ := h.trail
  obtain ⟨steps', n', -, hsteps', htrail'⟩ := h'.trail
  rw [hsteps] at hsteps'
  -- the last step is the name, and the steps before it lead to the parent
  obtain ⟨rfl, hname⟩ := List.append_inj' hsteps' rfl
  exact ⟨(htrail.unique htrail').2, by simpa using hname⟩

/-- The last step of a path is a name that an entry can have. -/
theorem EntryAt.isEntryName (h : d.EntryAt p parent name) : IsEntryName name := by
  obtain ⟨steps, n, -, hsteps, -⟩ := h.trail
  have hmem : name ∈ (Route.ofText p.text.toList).steps := by
    show name ∈ p.route.steps
    rw [hsteps]
    simp
  obtain ⟨hne, hslash, hsubset⟩ := mem_steps hmem
  exact ⟨hne, hslash, fun hzero => h.accepted.no_zero (hsubset hzero), h.isName.ne_here,
    h.isName.ne_up, h.isName.short⟩

/-- The entry that a path names stays, as the way to its parent does. -/
theorem EntryAt.mono (h : d.EntryAt p parent name)
    (hways : Entries.KeepsWays d.entries d'.entries) (hcwd : d.cwd = d'.cwd) :
    d'.EntryAt p parent name := by
  obtain ⟨steps, n, hn, hsteps, htrail⟩ := h.trail
  rw [startOf_congr hcwd] at htrail
  exact ⟨h.accepted, h.isName, steps, n, hn, hsteps, htrail.mono hways⟩

/-- A path leads to a directory if that is the entry that its last step names. -/
theorem EntryAt.leadsTo (h : d.EntryAt p parent name) {es : Entries}
    (hnode : d.entries.nodeAt (parent ++ [name]) = some (.directory es)) :
    d.LeadsTo p (parent ++ [name]) := by
  obtain ⟨steps, n, hn, hsteps, htrail⟩ := h.trail
  refine ⟨h.accepted, n, hn, leads_steps_iff.mpr ?_⟩
  rw [hsteps]
  exact htrail.append (.enter h.isName hnode (.nil _))

/-- What the last step of a path names is looked up in the directory before it. -/
theorem EntryAt.resolveRoute_eq (h : d.EntryAt p parent name) (followLast w : Bool) :
    ∃ links, d.resolveRoute followLast { p.route with endsInSlash := w } =
      followLinks d.entries followLast links parent [name] w := by
  obtain ⟨steps, n, hn, hsteps, htrail⟩ := h.trail
  refine ⟨linkLimit - n, ?_⟩
  unfold resolveRoute
  dsimp only
  rw [startOf_eq, hsteps, htrail.followLinks_append hn (by simp)]

/-- A path to an entry that is a directory resolves to it. -/
theorem EntryAt.resolveRoute_directory (h : d.EntryAt p parent name) {es : Entries}
    (hnode : d.entries.nodeAt (parent ++ [name]) = some (.directory es)) (followLast w : Bool) :
    d.resolveRoute followLast { p.route with endsInSlash := w } =
      .ok (.existing (parent ++ [name]) (.directory es)) := by
  obtain ⟨links, hplace⟩ := h.resolveRoute_eq followLast w
  rw [hplace, followLinks_enter h.isName hnode, followLinks_nil,
    Entries.descend_eq_some_iff.mpr hnode]

/-- A path to a link resolves to the link itself, if the last one is not followed. -/
theorem EntryAt.resolveRoute_link (h : d.EntryAt p parent name) {target : String}
    (hnode : d.entries.nodeAt (parent ++ [name]) = some (.link target)) :
    d.resolveRoute false { p.route with endsInSlash := false } =
      .ok (.existing (parent ++ [name]) (.link target)) := by
  obtain ⟨links, hplace⟩ := h.resolveRoute_eq false false
  rw [hplace, followLinks_link h.isName hnode, if_pos (by simp)]

/-- A locked directory can be named, though not entered. -/
theorem EntryAt.resolveRoute_locked (h : d.EntryAt p parent name) {es : Entries}
    (hnode : d.entries.nodeAt (parent ++ [name]) = some (.locked es)) (followLast w : Bool) :
    d.resolveRoute followLast { p.route with endsInSlash := w } =
      .ok (.existing (parent ++ [name]) (.locked es)) := by
  obtain ⟨links, hplace⟩ := h.resolveRoute_eq followLast w
  rw [hplace, followLinks_locked h.isName hnode, if_pos rfl]

/-- A path to a file resolves to it, without a slash at the end. -/
theorem EntryAt.resolveRoute_file (h : d.EntryAt p parent name) {c : Content}
    (hnode : d.entries.nodeAt (parent ++ [name]) = some (.file c)) (followLast : Bool) :
    d.resolveRoute followLast { p.route with endsInSlash := false } =
      .ok (.existing (parent ++ [name]) (.file c)) := by
  obtain ⟨links, hplace⟩ := h.resolveRoute_eq followLast false
  rw [hplace, followLinks_file h.isName hnode, if_pos (by simp)]

/-- A path to a free name resolves to the place for it. -/
theorem FreeAt.resolveRoute (h : d.FreeAt p parent name) (followLast w : Bool) :
    d.resolveRoute followLast { p.route with endsInSlash := w } = .ok (.vacant parent name) := by
  obtain ⟨links, hplace⟩ := h.resolveRoute_eq followLast w
  rw [hplace, followLinks_absent h.isName h.free, if_pos ⟨rfl, h.alive⟩]

/-- A path whose last step names a missing entry leads to nothing. -/
theorem FreeAt.hasNode_eq_false (h : d.FreeAt p parent name) : d.hasNode p = false := by
  rw [Bool.eq_false_iff]
  intro hnode
  obtain ⟨names, node, hresolve⟩ := hasNode_iff.mp hnode
  have hvacant : d.resolve true p = .ok (.vacant parent name) :=
    resolve_eq_ok.mpr ⟨_, route_eq_ok h.accepted, h.resolveRoute true _⟩
  rw [hvacant] at hresolve
  cases hresolve

/-- A path that leads to something other than a directory, or to a free name, ends in a step that
is looked up in a directory. -/
theorem exists_entryAt {w : Bool} {place : Place} (haccepted : p.IsAccepted)
    (h : d.resolveRoute false { p.route with endsInSlash := w } = .ok place)
    (hplace : ∀ names es, place ≠ .existing names (.directory es)) :
    ∃ parent name links, d.EntryAt p parent name ∧
      followLinks d.entries false links parent [name] w = .ok place := by
  unfold resolveRoute at h
  dsimp only at h
  rw [startOf_eq] at h
  rcases List.eq_nil_or_concat p.route.steps with hsteps | ⟨steps, step, hsteps⟩
  · rw [hsteps] at h
    obtain ⟨es, -, hdirectory⟩ := descend_of_followLinks_nil h
    exact absurd hdirectory (hplace _ _)
  rw [List.concat_eq_append] at hsteps
  rw [hsteps] at h
  obtain ⟨n, parent, hn, htrail⟩ := exists_leads_of_followLinks (by simp) h
  rw [htrail.followLinks_append hn (by simp)] at h
  have hentry : IsNameStep step → ∃ parent name links, d.EntryAt p parent name ∧
      followLinks d.entries false links parent [name] w = .ok place := fun hstep =>
    ⟨parent, step, linkLimit - n, ⟨haccepted, hstep, steps, n, hn, hsteps, htrail⟩, h⟩
  -- from the directory before it, the last step must be a name
  cases firstStep_of_followLinks h with
  | here _ behind =>
    obtain ⟨es, -, hdirectory⟩ := descend_of_followLinks_nil behind
    exact absurd hdirectory (hplace _ _)
  | up _ behind =>
    obtain ⟨es, -, hdirectory⟩ := descend_of_followLinks_nil behind
    exact absurd hdirectory (hplace _ _)
  | vacant isName => exact hentry isName
  | lock isName => exact hentry isName
  | enter isName => exact hentry isName
  | file isName => exact hentry isName
  | stay isName => exact hentry isName
  | pass isName => exact hentry isName

/-- A file or a link that is found is an entry of a directory. -/
theorem entryAt_of_existing {w : Bool} {node : Node} (haccepted : p.IsAccepted)
    (h : d.resolveRoute false { p.route with endsInSlash := w } = .ok (.existing names node))
    (hnode : ∀ es, node ≠ .directory es) (hlocked : ∀ es, node ≠ .locked es) :
    ∃ parent name, d.EntryAt p parent name ∧ names = parent ++ [name] ∧
      d.entries.nodeAt (parent ++ [name]) = some node := by
  obtain ⟨parent, name, links, hentry, hlast⟩ :=
    exists_entryAt haccepted h fun ms es heq => hnode es (Place.existing.inj heq).2
  refine ⟨parent, name, hentry, ?_⟩
  cases firstStep_of_followLinks hlast with
  | here isHere => exact absurd isHere hentry.isName.ne_here
  | up isUp => exact absurd isUp hentry.isName.ne_up
  | vacant _ _ _ _ isPlace => cases isPlace
  | enter _ _ behind =>
    obtain ⟨es, -, hplace⟩ := descend_of_followLinks_nil behind
    cases hplace
    exact absurd rfl (hnode es)
  | lock _ _ _ isPlace =>
    cases isPlace
    exact absurd rfl (hlocked _)
  | file _ found _ _ isPlace =>
    cases isPlace
    exact ⟨rfl, found⟩
  | stay _ found _ _ _ isPlace =>
    cases isPlace
    exact ⟨rfl, found⟩
  | pass _ _ _ passes behind =>
    -- the link is passed only where a directory is wanted
    have hw : w = true := by simpa using passes
    rw [hw, Bool.true_or] at behind
    obtain ⟨es, rfl | rfl⟩ := exists_directory_of_wanted behind
    · exact absurd rfl (hnode es)
    · exact absurd rfl (hlocked es)

/-- A free name that is found is missing from a directory. -/
theorem freeAt_of_vacant (haccepted : p.IsAccepted)
    (h : d.resolveRoute false { p.route with endsInSlash := false } = .ok (.vacant parent name)) :
    d.FreeAt p parent name := by
  obtain ⟨parent', name', links, hentry, hlast⟩ := exists_entryAt haccepted h (by simp)
  -- of all that the last step may find only nothing leaves a place vacant
  cases firstStep_of_followLinks hlast with
  | here isHere => exact absurd isHere hentry.isName.ne_here
  | up isUp => exact absurd isUp hentry.isName.ne_up
  | vacant _ absent _ alive isPlace =>
    cases isPlace
    exact { hentry with alive := alive, free := absent }
  | enter _ _ behind =>
    obtain ⟨es, -, hplace⟩ := descend_of_followLinks_nil behind
    cases hplace
  | lock _ _ _ isPlace => cases isPlace
  | file _ _ _ _ isPlace => cases isPlace
  | stay _ _ _ _ _ isPlace => cases isPlace
  | pass _ _ _ passes => simp at passes

/-- What a path leads to is still there when the disk grows. -/
theorem resolve_grows {followLast : Bool} {node : Node}
    (hgrows : Entries.Grows d.entries d'.entries) (hcwd : d.cwd = d'.cwd)
    (h : d.resolve followLast p = .ok (.existing names node)) :
    ∃ node', d'.resolve followLast p = .ok (.existing names node') ∧ node'.mark = node.mark := by
  obtain ⟨r, hroute, hplace⟩ := resolve_eq_ok.mp h
  unfold resolveRoute at hplace
  rw [hcwd] at hplace
  obtain ⟨node', hplace', hmark⟩ := followLinks_grows hgrows hplace
  exact ⟨node', resolve_eq_ok.mpr ⟨r, hroute, hplace'⟩, hmark⟩

end Paths

end Disk

end NamingLint
