import NamingLint.Proofs.Disk.Place

/-!
# NamingLint — what making and removing directories does

Each change of a disk, told by what it does to the tree: the one place where it adds or removes
something, and what it leaves alone.

* `Disk.withNode` — a disk with a node put into a directory.
* `Disk.Adds` — a disk with new directories on the way to some names, and nothing else.
* `Disk.Makes` — a disk with the directory at a path, which was missing, and those above it.
* `Disk.StepsBackInside` — no `..` of a path steps back from a directory that is missing.

Main results:

* `ensureDirectory_cases` — what making one directory does.
* `makes_of_makeDirectories` — a path that leads to no directory, made by `makeDirectories`, leads to
  a new empty one, unless it steps back from a missing directory.
* `removed_of_removeTree` — after `removeTree`, a path leads to no directory, or to the empty root.
-/

namespace NamingLint

/-! ## Runs -/

section Runs

variable {ε α β : Type}

/-- A change goes on with the next one on the disk it left, and stops at an error there. -/
theorem run_bind (x : ExceptT ε (StateM Disk) α) (f : α → ExceptT ε (StateM Disk) β) (d : Disk) :
    (x >>= f).run d =
      match x.run d with
      | (.ok a, d') => (f a).run d'
      | (.error e, d') => (.error e, d') := by
  show ExceptT.bindCont f (x.run d).1 (x.run d).2 = _
  rcases x.run d with ⟨r, d'⟩
  cases r <;> rfl

theorem run_pure (a : α) (d : Disk) : (pure a : ExceptT ε (StateM Disk) α).run d = (.ok a, d) :=
  rfl

theorem run_throw (e : ε) (d : Disk) :
    (throw e : ExceptT ε (StateM Disk) α).run d = (.error e, d) :=
  rfl

theorem run_get (d : Disk) : (get : ExceptT ε (StateM Disk) Disk).run d = (.ok d, d) :=
  rfl

theorem run_modify (f : Disk → Disk) (d : Disk) :
    (modify f : ExceptT ε (StateM Disk) Unit).run d = (.ok (), f d) :=
  rfl

/-- What is caught has left its mark on the disk. -/
theorem run_tryCatch (x : ExceptT ε (StateM Disk) α) (h : ε → ExceptT ε (StateM Disk) α)
    (d : Disk) :
    (tryCatch x h).run d =
      match x.run d with
      | (.ok a, d') => (.ok a, d')
      | (.error e, d') => (h e).run d' := by
  show (match (x.run d).1 with
    | .ok a => pure (.ok a)
    | .error e => h e : StateM Disk _) (x.run d).2 = _
  rcases x.run d with ⟨r, d'⟩
  cases r <;> rfl

end Runs

namespace Disk

/-! ## New entries -/

/-- A disk with a node put into a directory. -/
def withNode (parent : List String) (name : String) (node : Node) (d : Disk) : Disk :=
  d.modifyDirectory parent (Entries.put name node)

section Entry

variable {d : Disk} {p : Path} {parent : List String} {name : String}

/-- A node that was put somewhere is there. -/
theorem nodeAt_withNode (h : (d.entries.descend parent).isSome) (node : Node) :
    (d.withNode parent name node).entries.nodeAt (parent ++ [name]) = some node := by
  obtain ⟨es, hes⟩ := Option.isSome_iff_exists.mp h
  show (d.entries.modifyAt (Entries.put name node) parent).nodeAt (parent ++ [name]) = some node
  rw [Entries.nodeAt_modifyAt_append, Entries.descend_eq_some_iff.mp hes]
  show (es.put name node).nodeAt [name] = some node
  rw [Entries.nodeAt_singleton, Entries.lookup_put, if_pos rfl]

/-- A node in a free place takes nothing away. -/
theorem FreeAt.grows (h : d.FreeAt p parent name) (node : Node) :
    Entries.Grows d.entries (d.withNode parent name node).entries :=
  Entries.grows_put h.free node

/-- A proper node in a free place leaves the disk proper. -/
theorem FreeAt.isProper_withNode (h : d.FreeAt p parent name) (hd : Entries.IsProper d.entries)
    {node : Node} (hnode : node.IsProper) :
    Entries.IsProper (d.withNode parent name node).entries := by
  refine hd.modifyAt fun inner hinner hproper => ?_
  refine hproper.put ?_ h.isEntryName hnode
  -- a name that is free is not given twice
  have hfree := h.free
  rwa [← Entries.bind_lookup_descend, hinner] at hfree

/-- The path of a missing directory leads to it once it is made. -/
theorem FreeAt.leadsTo (h : d.FreeAt p parent name) (es : Entries) :
    (d.withNode parent name (.directory es)).LeadsTo p (parent ++ [name]) :=
  EntryAt.leadsTo (h.toEntryAt.mono (h.grows _).keepsWays rfl) (nodeAt_withNode h.alive _)

/-! ## Free names -/

/-- A place that is free is found. -/
theorem run_freePlace (h : d.FreeAt p parent name) :
    (freePlace p).run d = (.ok (parent, name), d) := by
  unfold freePlace
  rw [run_bind, run_get]
  dsimp only
  rw [route_eq_ok h.accepted]
  dsimp only [Except.bind]
  rw [h.resolveRoute false false]
  rfl

/-- Looking for a free name finds one or fails; the disk stays as it is. -/
theorem freePlace_cases (d : Disk) (p : Path) :
    (∃ parent name, d.FreeAt p parent name) ∨ ∃ e, (freePlace p).run d = (.error e, d) := by
  unfold freePlace
  rw [run_bind, run_get]
  dsimp only
  cases hroute : route p with
  | error e => exact .inr ⟨e, rfl⟩
  | ok r =>
    obtain ⟨haccepted, rfl⟩ := isAccepted_of_route hroute
    dsimp only [Except.bind]
    cases hplace : d.resolveRoute false { p.route with endsInSlash := false } with
    | error e => exact .inr ⟨e, rfl⟩
    | ok place =>
      -- what exists is in the way
      cases place with
      | existing names node => exact .inr ⟨.alreadyExists, rfl⟩
      | vacant parent name => exact .inl ⟨parent, name, freeAt_of_vacant haccepted hplace⟩

/-! ## Making one directory -/

/-- Making a directory adds it where its name is free, does nothing where there is one, locked or
not, and fails otherwise. -/
theorem ensureDirectory_cases (d : Disk) (p : Path) :
    (∃ parent name, d.FreeAt p parent name ∧
      (ensureDirectory p).run d = (.ok (), d.withNode parent name (.directory []))) ∨
    (d.hasDirectory p = true ∧ (ensureDirectory p).run d = (.ok (), d)) ∨
    (d.hasDirectory p = false ∧ ∃ e, (ensureDirectory p).run d = (.error e, d)) := by
  unfold ensureDirectory makeDirectory
  rw [run_tryCatch, run_bind]
  rcases freePlace_cases d p with ⟨parent, name, hfree⟩ | ⟨e, he⟩
  · left
    rw [run_freePlace hfree]
    exact ⟨parent, name, hfree, rfl⟩
  · right
    rw [he]
    dsimp only
    rw [run_bind, run_get]
    dsimp only
    -- no free place: it is no error if a directory is there already
    cases hdirectory : d.hasDirectory p with
    | true => exact .inl ⟨rfl, rfl⟩
    | false => exact .inr ⟨rfl, e, rfl⟩

/-- A directory that exists is left alone. -/
theorem run_ensureDirectory_of_directory (h : d.hasDirectory p = true) :
    (ensureDirectory p).run d = (.ok (), d) := by
  rcases ensureDirectory_cases d p with ⟨parent, name, hfree, -⟩ | ⟨-, hrun⟩ | ⟨hnone, -⟩
  · rw [hasDirectory_eq_false_of_hasNode hfree.hasNode_eq_false] at h
    cases h
  · exact hrun
  · rw [hnone] at h
    cases h

/-- Where the directory exists, those above are not made. -/
theorem run_ensureDirectoryAfter_of_directory (above : Change Unit)
    (h : d.hasDirectory p = true) : (ensureDirectoryAfter above p).run d = (.ok (), d) := by
  unfold ensureDirectoryAfter
  rw [run_tryCatch, run_ensureDirectory_of_directory h]

/-- Nor are they where there is a place for it. -/
theorem run_ensureDirectoryAfter_of_free (above : Change Unit) (h : d.FreeAt p parent name) :
    (ensureDirectoryAfter above p).run d = (.ok (), d.withNode parent name (.directory [])) := by
  unfold ensureDirectoryAfter ensureDirectory makeDirectory
  rw [run_tryCatch, run_tryCatch, run_bind, run_freePlace h]
  rfl

end Entry

/-! ## Disks with new directories -/

/-- `e` is `c` with new empty directories on the way to some names, each made where its name was
free. -/
inductive Adds (c : Disk) : Disk → List String → Prop where
  | refl (place : List String) : Adds c c place
  | withNode {base : Disk} {p : Path} {parent : List String} {name : String}
    (before : Adds c base parent) (free : base.FreeAt p parent name) :
    Adds c (base.withNode parent name (.directory [])) (parent ++ [name])

section Making

variable {c e : Disk} {p q : Path} {place : List String}

theorem Adds.cwd (h : c.Adds e place) : c.cwd = e.cwd := by
  induction h with
  | refl _ => rfl
  | withNode _ _ ih => exact ih

theorem Adds.grows (h : c.Adds e place) : Entries.Grows c.entries e.entries := by
  induction h with
  | refl _ => exact .refl _
  | withNode _ free ih => exact ih.trans (free.grows _)

theorem Adds.proper (h : c.Adds e place) (hc : Entries.IsProper c.entries) :
    Entries.IsProper e.entries := by
  induction h with
  | refl _ => exact hc
  | withNode _ free ih => exact free.isProper_withNode ih trivial

/-- Nothing is new but directories on the way. -/
theorem Adds.only (h : c.Adds e place) (ms : List String) :
    e.entries.markAt ms = c.entries.markAt ms ∨
      (c.entries.markAt ms = none ∧ e.entries.markAt ms = some .directory ∧ ms <+: place) := by
  induction h with
  | refl _ => exact .inl rfl
  | @withNode base p parent name before free ih =>
    by_cases hbelow : parent ++ [name] <+: ms
    · -- at and below the new directory there was nothing
      obtain ⟨rest, rfl⟩ := hbelow
      have hold : c.entries.markAt (parent ++ [name] ++ rest) = none := by
        cases hmark : c.entries.markAt (parent ++ [name] ++ rest) with
        | none => rfl
        | some mark =>
          have hbase := before.grows _ mark hmark
          rw [Entries.markAt, Entries.nodeAt_append, free.free] at hbase
          simp at hbase
      have hnode : (base.withNode parent name (.directory [])).entries.nodeAt
          (parent ++ [name]) = some (.directory []) := nodeAt_withNode free.alive _
      rw [hold, Entries.markAt, Entries.nodeAt_append, hnode]
      cases rest with
      | nil => exact .inr ⟨rfl, rfl, by simp⟩
      | cons m rest => exact .inl rfl
    · have hsame : (base.withNode parent name (.directory [])).entries.markAt ms =
          base.entries.markAt ms := Entries.agreeOff_put parent name _ _ ms hbelow
      rw [hsame]
      rcases ih with hms | ⟨hnone, hdirectory, hprefix⟩
      · exact .inl hms
      · exact .inr ⟨hnone, hdirectory, hprefix.trans (List.prefix_append _ _)⟩

/-- `e` is `c` with the directory at a path, which was missing, and those above it. -/
def Makes (c e : Disk) (p : Path) : Prop :=
  ∃ base parent name, base.FreeAt p parent name ∧ c.Adds base parent ∧
    e = base.withNode parent name (.directory [])

/-- A directory that was made is empty, and its path leads to it. -/
theorem Makes.leadsTo (h : c.Makes e p) :
    ∃ place, e.LeadsTo p place ∧ e.entries.descend place = some [] ∧ c.Adds e place := by
  obtain ⟨base, parent, name, hfree, hadds, rfl⟩ := h
  exact ⟨parent ++ [name], hfree.leadsTo [],
    Entries.descend_eq_some_iff.mpr (nodeAt_withNode hfree.alive _), hadds.withNode hfree⟩

/-- A directory is made at once, or in a second attempt once those above it are made. -/
theorem makes_or_retries {above : Change Unit} (hnone : c.hasDirectory p = false)
    (h : (ensureDirectoryAfter above p).run c = (.ok (), e)) :
    c.Makes e p ∨ ∃ err e', (ensureDirectory p).run c = (.error err, c) ∧
      above.run c = (.ok (), e') ∧ (ensureDirectory p).run e' = (.ok (), e) := by
  rcases ensureDirectory_cases c p with ⟨parent, name, hfree, -⟩ | ⟨hdirectory, -⟩ | ⟨-, err, herr⟩
  · rw [run_ensureDirectoryAfter_of_free _ hfree] at h
    cases h
    exact .inl ⟨c, parent, name, hfree, .refl parent, rfl⟩
  · rw [hnone] at hdirectory
    cases hdirectory
  · unfold ensureDirectoryAfter at h
    rw [run_tryCatch, herr] at h
    dsimp only at h
    split at h
    · rw [run_bind] at h
      -- the directories above are made only where making this one failed
      rcases hrun : above.run c with ⟨r, e'⟩
      rw [hrun] at h
      cases r with
      | error err' => cases h
      | ok u => exact .inr ⟨err, e', herr, rfl, h⟩
    · rw [run_throw] at h
      cases h

/-- A directory whose path has one component, or none, is made at once: a second attempt would fail
like the first one. -/
theorem makes_of_lone (hnone : c.hasDirectory p = false)
    (h : (ensureDirectoryAfter (pure ()) p).run c = (.ok (), e)) : c.Makes e p := by
  rcases makes_or_retries hnone h with hmakes | ⟨err, e', herr, habove, hagain⟩
  · exact hmakes
  · rw [run_pure] at habove
    cases habove
    rw [herr] at hagain
    cases hagain

section Behind

variable {s : String}

/-- A path that is one name longer. -/
theorem startOf_of_append {comp : Component} (d : Disk)
    (hcomponents : p.components = q.components ++ [comp]) (hq : q.components ≠ []) :
    d.startOf p = d.startOf q := by
  obtain ⟨first, rest, hfirst⟩ := List.exists_cons_of_ne_nil hq
  unfold startOf
  rw [hcomponents, hfirst, List.cons_append, List.head?_cons, List.head?_cons]

variable (hcomponents : p.components = q.components ++ [.name s]) (hq : q.components ≠ [])
  (hplace : e.LeadsTo q place) (hempty : e.entries.descend place = some [])

include hcomponents hq hplace

/-- A free name behind a directory is a name in that directory. -/
theorem FreeAt.eq_of_append {parent : List String} {name : String}
    (hfree : e.FreeAt p parent name) : parent = place := by
  obtain ⟨steps, n, -, hsteps, htrail⟩ := hfree.trail
  obtain ⟨m, -, hwhole⟩ := hplace.trail
  -- but for dots, the steps of the path are those of its components
  have hdots : noDots steps ++ [name] = q.components.flatMap Component.steps ++ [s] := by
    have hpath := noDots_steps p
    rw [hcomponents, List.flatMap_append] at hpath
    have hroute : (Route.ofText p.text.toList).steps = steps ++ [name] := hsteps
    rw [hroute, noDots_append, noDots_cons hfree.isName.ne_here] at hpath
    exact hpath
  obtain ⟨hfirst, -⟩ := List.append_inj' hdots rfl
  rw [startOf_of_append e hcomponents hq, ← leads_noDots_iff, hfirst] at htrail
  exact (htrail.unique hwhole).2

include hempty

/-- A name behind an empty directory leads to nothing. -/
theorem hasNode_eq_false_of_append : e.hasNode p = false := by
  rw [Bool.eq_false_iff]
  intro hnode
  obtain ⟨names, node, hresolve⟩ := hasNode_iff.mp hnode
  obtain ⟨r, hroute, hfound⟩ := resolve_eq_ok.mp hresolve
  obtain ⟨-, rfl⟩ := isAccepted_of_route hroute
  unfold resolveRoute at hfound
  rw [startOf_eq, startOf_of_append e hcomponents hq] at hfound
  -- the path leads to the directory first, and then the name is looked up there
  have hpath := noDots_steps p
  rw [hcomponents, List.flatMap_append] at hpath
  obtain ⟨before, behind, hsteps, hbefore⟩ := exists_of_noDots_concat hpath
  obtain ⟨m, hm, hwhole⟩ := hplace.trail
  rw [← hbefore, leads_noDots_iff] at hwhole
  rw [show p.route.steps = before ++ s :: behind from hsteps,
    hwhole.followLinks_append hm (by simp)] at hfound
  have hnone : e.entries.nodeAt (place ++ [s]) = none := by
    rw [← Entries.bind_lookup_descend, hempty]
    rfl
  -- a step that is `.` or `..` is no name of a component
  obtain ⟨-, -, hhere, hup⟩ : (Component.name s).IsInner := Path.isInner_of_append hq hcomponents
  cases firstStep_of_followLinks hfound with
  | here isHere => exact hhere isHere
  | up isUp => exact hup isUp
  | vacant _ _ _ _ isPlace => cases isPlace
  | enter _ found => simp [hnone] at found
  | lock _ found => simp [hnone] at found
  | file _ found => simp [hnone] at found
  | stay _ found => simp [hnone] at found
  | pass _ found => simp [hnone] at found

end Behind

/-- A directory is made behind another one that is made first if it is missing. A `..` steps back
from a directory that is there. -/
theorem makes_of_append {above : Change Unit} {comp : Component}
    (hcomponents : p.components = q.components ++ [comp]) (hq : q.components ≠ [])
    (habove : ∀ e, c.hasDirectory q = false → above.run c = (.ok (), e) → c.Makes e q)
    (hidle : c.hasDirectory q = true → above.run c = (.ok (), c))
    (hup : comp = .up → c.hasDirectory q = true)
    (hnone : c.hasDirectory p = false)
    (h : (ensureDirectoryAfter above p).run c = (.ok (), e)) : c.Makes e p := by
  rcases makes_or_retries hnone h with hmakes | ⟨err, e', herr, hrun, hagain⟩
  · exact hmakes
  cases hdirectory : c.hasDirectory q with
  | true =>
    -- nothing was missing above, so the second attempt would fail like the first one
    rw [hidle hdirectory] at hrun
    cases hrun
    rw [herr] at hagain
    cases hagain
  | false =>
    obtain ⟨place, hplace, hempty, hadds⟩ := (habove e' hdirectory hrun).leadsTo
    have hname : ∃ s, comp = .name s := by
      have hinner : comp.IsInner := Path.isInner_of_append hq hcomponents
      cases comp with
      | name s => exact ⟨s, rfl⟩
      | up => simp [hdirectory] at hup
      | root => exact hinner.elim
      | here => exact hinner.elim
    obtain ⟨s, rfl⟩ := hname
    rcases ensureDirectory_cases e' p with
      ⟨parent, name, hfree, hmade⟩ | ⟨hfound, -⟩ | ⟨-, err', herr'⟩
    · rw [hmade] at hagain
      cases hagain
      have hparent := hfree.eq_of_append hcomponents hq hplace
      exact ⟨e', parent, name, hfree, hparent ▸ hadds, rfl⟩
    · have habsent := hasNode_eq_false_of_append hcomponents hq hplace hempty
      rw [hasDirectory_eq_false_of_hasNode habsent] at hfound
      cases hfound
    · rw [herr'] at hagain
      cases hagain

/-- No `..` of a path steps back from a directory that is missing. -/
def StepsBackInside (d : Disk) (p : Path) : Prop :=
  ∀ k, 0 < k → p.components[k]? = some .up →
    (d.directory? (Path.ofComponents (p.components.take k))).isSome

/-- A path without `..` steps back from nothing. -/
theorem stepsBackInside_of_not_mem {d : Disk} (h : Component.up ∉ p.components) :
    d.StepsBackInside p :=
  fun _ _ hk => absurd (List.mem_of_getElem? hk) h

theorem take_succ_components {k : Nat} {comp : Component} (h : p.components[k]? = some comp) :
    p.components.take (k + 1) = p.components.take k ++ [comp] := by
  rw [List.take_add_one, h]
  rfl

/-- The directories of a path are made one behind the other, from the first that is missing on. -/
theorem makes_of_makeAncestors (hinside : c.StepsBackInside p) {n : Nat}
    (hlength : n < p.components.length) (hq : q.components = p.components.take (n + 1))
    (hnone : c.hasDirectory q = false)
    (h : (ensureDirectoryAfter (makeAncestors p.components n) q).run c = (.ok (), e)) :
    c.Makes e q := by
  have hne : p.components ≠ [] := List.ne_nil_of_length_pos (by omega)
  induction n generalizing q e with
  | zero => exact makes_of_lone hnone h
  | succ n ih =>
    -- the path above is that of the first `n + 1` components
    have habove := Path.components_take p (Nat.succ_pos n) hne
    have hlast : p.components[n + 1]? = some p.components[n + 1] :=
      List.getElem?_eq_getElem hlength
    have happend : q.components =
        (Path.ofComponents (p.components.take (n + 1))).components ++ [p.components[n + 1]] := by
      rw [hq, habove, take_succ_components hlast]
    refine makes_of_append happend (Path.components_take_ne_nil p (Nat.succ_pos n) hne) ?_ ?_ ?_
      hnone h
    · exact fun e' hmissing hrun => ih (by omega) habove hmissing hrun
    · exact fun hdirectory => run_ensureDirectoryAfter_of_directory _ hdirectory
    · intro hup
      obtain ⟨es, hes⟩ :=
        Option.isSome_iff_exists.mp (hinside (n + 1) (Nat.succ_pos n) (hup ▸ hlast))
      exact hasDirectory_of_directory? hes

/-- A path that leads to no directory leads to a new empty one after `makeDirectories`. -/
theorem makes_of_makeDirectories (hinside : c.StepsBackInside p) (htext : p.text ≠ "")
    (hnone : c.hasDirectory p = false) (h : (makeDirectories p).run c = (.ok (), e)) :
    c.Makes e p := by
  unfold makeDirectories at h
  rw [if_neg htext] at h
  cases hlength : p.components.length with
  | zero =>
    rw [hlength] at h
    exact makes_of_lone hnone h
  | succ n =>
    rw [hlength, Nat.add_sub_cancel] at h
    -- the path itself is its longest start
    have hwhole : p.components = p.components.take (n + 1) := by rw [← hlength, List.take_length]
    exact makes_of_makeAncestors hinside (by omega) hwhole hnone h

end Making

/-! ## Removing -/

section Removing

variable {c d : Disk} {p : Path}

theorem run_place (followLast : Bool) (d : Disk) (p : Path) :
    (place followLast p).run d = (d.resolve followLast p, d) :=
  rfl

/-- A node is removed from the directory it is in. -/
theorem run_removeNode (parent : List String) (name : String) (d : Disk) :
    (removeNode (parent ++ [name])).run d =
      (.ok (), d.modifyDirectory parent (Entries.remove name)) := by
  unfold removeNode
  rw [List.getLast?_concat, List.dropLast_concat]
  rfl

/-- A disk whose directory at some names holds other entries. -/
def fill (names : List String) (es : Entries) (d : Disk) : Disk :=
  d.modifyDirectory names fun _ => es

/-- A directory that is emptied holds nothing new. -/
theorem fill_nil_grows (names : List String) (d : Disk) :
    Entries.Grows (d.fill names []).entries d.entries :=
  Entries.modifyAt_grows fun inner _ => Entries.grows_nil inner

/-- Where a path leads to a directory, something is found behind it without its last slash: the
directory, or a link to it. -/
theorem LeadsTo.bare {names : List String} {es : Entries} (h : d.LeadsTo p names)
    (hes : d.entries.descend names = some es) :
    d.resolveRoute false { p.route with endsInSlash := false } =
        .ok (.existing names (.directory es)) ∨
      ∃ names' target, d.resolveRoute false { p.route with endsInSlash := false } =
        .ok (.existing names' (.link target)) := by
  obtain ⟨n, hn, htrail⟩ := h.trail
  rw [leads_steps_iff] at htrail
  have hpass := htrail.followLinks (w := false) hn hes
  unfold resolveRoute
  dsimp only
  rw [startOf_eq]
  -- without following the last link there is a directory or that link
  have hlast : followLinks d.entries false linkLimit (d.startOf p) p.route.steps false =
      followLinks d.entries true linkLimit (d.startOf p) p.route.steps false ∨ _ :=
    followLinks_last linkLimit false (d.startOf p) p.route.steps
  rcases hlast with hsame | ⟨names', target, hlink⟩
  · exact .inl (hsame.trans hpass)
  · exact .inr ⟨names', target, hlink⟩

/-- What removing an empty directory does. -/
theorem removeDirectory_cases (d : Disk) (p : Path) :
    (∃ names es, d.LeadsTo p names ∧ d.entries.descend names = some es ∧
      (removeDirectory p).run d = (removeNode names).run d) ∨
    (∃ names es, d.resolveRoute false { p.route with endsInSlash := false } =
      .ok (.existing names (.locked es))) ∨
    ∃ e, (removeDirectory p).run d = (.error e, d) ∧ (e = .notFound → d.directory? p = none) := by
  unfold removeDirectory
  rw [run_bind, run_get]
  dsimp only
  cases hroute : route p with
  | error e =>
    refine .inr (.inr ⟨e, rfl, fun _ => directory?_eq_none_iff.mpr fun names hleads => ?_⟩)
    rw [route_eq_ok hleads.accepted] at hroute
    simp at hroute
  | ok r =>
    obtain ⟨haccepted, rfl⟩ := isAccepted_of_route hroute
    dsimp only
    have hmissing : (∀ names node, d.resolveRoute false { p.route with endsInSlash := false } ≠
        .ok (.existing names node)) → d.directory? p = none := by
      intro hnone
      rw [directory?_eq_none_iff]
      intro names hleads
      rw [Option.eq_none_iff_forall_ne_some]
      intro es hes
      rcases hleads.bare hes with hplace | ⟨names', target, hplace⟩
      · exact hnone _ _ hplace
      · exact hnone _ _ hplace
    cases hplace : d.resolveRoute false { p.route with endsInSlash := false } with
    | error e =>
      exact .inr (.inr ⟨e, rfl, fun _ => hmissing (by simp [hplace])⟩)
    | ok place =>
      cases place with
      | vacant parent name =>
        exact .inr (.inr ⟨.notFound, rfl, fun _ => hmissing (by simp [hplace])⟩)
      | existing names node =>
        cases node with
        | file content => exact .inr (.inr ⟨.notDirectory, rfl, by simp⟩)
        | link target => exact .inr (.inr ⟨.notDirectory, rfl, by simp⟩)
        | locked es => exact .inr (.inl ⟨names, es, rfl⟩)
        | directory es =>
          obtain ⟨hleads, hes⟩ := leadsTo_of_resolveRoute haccepted hplace
          dsimp only
          -- the last step may be no name, and then the directory is not removed
          split
          · exact .inr (.inr ⟨.invalidArgument, rfl, by simp⟩)
          · exact .inr (.inr ⟨.notEmpty, rfl, by simp⟩)
          · exact .inl ⟨names, es, hleads, hes, rfl⟩

/-- An empty directory is removed through a path that ends in its name. -/
theorem EntryAt.run_removeDirectory {parent : List String} {name : String} {es : Entries}
    (h : d.EntryAt p parent name)
    (hnode : d.entries.nodeAt (parent ++ [name]) = some (.directory es)) :
    (removeDirectory p).run d = (.ok (), d.modifyDirectory parent (Entries.remove name)) := by
  obtain ⟨steps, n, -, hsteps, -⟩ := h.trail
  unfold removeDirectory
  rw [run_bind, run_get, route_eq_ok h.accepted]
  dsimp only
  rw [h.resolveRoute_directory hnode]
  dsimp only
  rw [hsteps, List.getLast?_concat]
  split
  · -- the last step is a name, neither of the two dots
    rename_i hhere
    exact absurd (Option.some.inj hhere) h.isName.ne_here
  · rename_i hup
    exact absurd (Option.some.inj hup) h.isName.ne_up
  · exact run_removeNode parent name d

/-- A disk without an entry, which a path led to, leads the path to nothing. -/
theorem EntryAt.hasNode_eq_false_of_removed {parent : List String} {name : String}
    (h : d.EntryAt p parent name) :
    (d.modifyDirectory parent (Entries.remove name)).hasNode p = false := by
  rw [Bool.eq_false_iff]
  intro hnode
  obtain ⟨names, node, hresolve⟩ := hasNode_iff.mp hnode
  obtain ⟨r, hroute, hfound⟩ := resolve_eq_ok.mp hresolve
  obtain ⟨-, rfl⟩ := isAccepted_of_route hroute
  obtain ⟨steps, n, -, hsteps, htrail⟩ := h.trail
  unfold resolveRoute at hfound
  rw [startOf_eq, hsteps] at hfound
  obtain ⟨k, middle, hk, hfirst⟩ := exists_leads_of_followLinks (by simp) hfound
  rw [hfirst.followLinks_append hk (by simp)] at hfound
  -- what is left of the trail leads to the same directory as before
  obtain ⟨-, rfl⟩ := htrail.unique
    (hfirst.mono (Entries.remove_grows parent name d.entries).keepsWays)
  have hgone : (d.modifyDirectory parent (Entries.remove name)).entries.nodeAt
      (parent ++ [name]) = none := Entries.nodeAt_remove parent name d.entries
  rw [followLinks_absent h.isName hgone] at hfound
  split at hfound <;> cases hfound

/-- A path that led to a directory leads to none where that directory is gone. -/
theorem LeadsTo.directory?_eq_none_of_gone {names : List String} (h : d.LeadsTo p names)
    (hgrows : Entries.Grows c.entries d.entries) (hcwd : c.cwd = d.cwd)
    (hgone : c.entries.nodeAt names = none) : c.directory? p = none := by
  rw [directory?_eq_none_iff]
  intro names' hleads
  rw [(hleads.mono hgrows.keepsWays hcwd).unique h, Option.eq_none_iff_forall_ne_some]
  intro es hes
  rw [Entries.descend_eq_some_iff, hgone] at hes
  simp at hes

/-- A path that led to a directory does not come to lead to a locked one where something is gone. -/
theorem LeadsTo.hasDirectory_eq_false {names : List String} {es : Entries} (h : d.LeadsTo p names)
    (hes : d.entries.descend names = some es) (hgrows : Entries.Grows c.entries d.entries)
    (hcwd : c.cwd = d.cwd) (hnone : c.directory? p = none) : c.hasDirectory p = false := by
  rw [Bool.eq_false_iff]
  intro hdirectory
  rcases hasDirectory_iff.mp hdirectory with ⟨fs, hfs⟩ | ⟨fs, hfs⟩
  · rw [directory?_eq_some.mpr hfs] at hnone
    cases hnone
  · -- a locked directory would have been locked before
    obtain ⟨names', hresolve⟩ := node_eq_ok.mp hfs
    obtain ⟨node, hgrown, hmark⟩ := resolve_grows hgrows hcwd hresolve
    rw [resolve_eq_directory_iff.mpr ⟨h, hes⟩] at hgrown
    cases hgrown
    cases hmark

/-- What is left of `d` once the tree at a path is removed: the path led to `old`, nothing else has
changed, and the path leads to no directory now, or to the root, which is empty and stays. -/
structure Removed (d c : Disk) (p : Path) (old : List String) : Prop where
  found : ∃ node, d.resolve false p = .ok (.existing old node)
  cwd : c.cwd = d.cwd
  agreeOff : Entries.AgreeOff old d.entries c.entries
  grows : Entries.Grows c.entries d.entries
  proper : Entries.IsProper d.entries → Entries.IsProper c.entries
  gone : c.hasDirectory p = false ∨
    c.entries = [] ∧ c.LeadsTo p [] ∧ (removeDirectory p).run c = (.ok (), c)

/-- An entry is removed. -/
theorem EntryAt.removed {parent : List String} {name : String} {node : Node}
    (h : d.EntryAt p parent name)
    (hfound : d.resolve false p = .ok (.existing (parent ++ [name]) node)) :
    Removed d (d.modifyDirectory parent (Entries.remove name)) p (parent ++ [name]) where
  found := ⟨node, hfound⟩
  cwd := rfl
  agreeOff := Entries.agreeOff_remove parent name _
  grows := Entries.remove_grows parent name _
  proper hd := hd.modifyAt fun _ _ hes => hes.remove name
  gone := .inl (hasDirectory_eq_false_of_hasNode h.hasNode_eq_false_of_removed)

section Directory

variable {old : List String} {node : Node} (hfound : d.resolve false p = .ok (.existing old node))

include hfound

/-- A directory is emptied, and not found any more, or the root. -/
theorem removed_of_emptied
    (hgone : (d.fill old []).hasDirectory p = false ∨ (d.fill old []).entries = [] ∧
      (d.fill old []).LeadsTo p [] ∧
      (removeDirectory p).run (d.fill old []) = (.ok (), d.fill old [])) :
    Removed d (d.fill old []) p old where
  found := ⟨node, hfound⟩
  cwd := rfl
  agreeOff := Entries.agreeOff_modifyAt _ (List.prefix_refl old) _
  grows := fill_nil_grows old d
  proper hd := hd.modifyAt fun _ _ _ => trivial
  gone := hgone

/-- A directory is emptied, and then its name is removed. -/
theorem LeadsTo.removed_of_entry {parent : List String} {name : String} {es : Entries}
    (h : d.LeadsTo p old) (hes : d.entries.descend old = some es) (hold : old = parent ++ [name]) :
    Removed d ((d.fill old []).modifyDirectory parent (Entries.remove name)) p old := by
  subst hold
  -- emptied first and then removed: each step leaves less
  have hless := (Entries.remove_grows parent name
    (d.fill (parent ++ [name]) []).entries).trans (fill_nil_grows (parent ++ [name]) d)
  have hoff : Entries.AgreeOff (parent ++ [name]) d.entries (d.fill (parent ++ [name]) []).entries :=
    Entries.agreeOff_modifyAt _ (List.prefix_refl _) _
  have hproper : Entries.IsProper d.entries →
      Entries.IsProper (d.fill (parent ++ [name]) []).entries :=
    fun hd => hd.modifyAt fun _ _ _ => trivial
  have hnone : ((d.fill (parent ++ [name]) []).modifyDirectory parent
      (Entries.remove name)).directory? p = none :=
    h.directory?_eq_none_of_gone hless rfl (Entries.nodeAt_remove parent name _)
  exact
    { found := ⟨node, hfound⟩
      cwd := rfl
      agreeOff := hoff.trans (Entries.agreeOff_remove parent name _)
      grows := hless
      proper := fun hd => (hproper hd).modifyAt fun _ _ hes => hes.remove name
      gone := .inl (h.hasDirectory_eq_false hes hless rfl hnone) }

/-- A directory with everything below it is removed. The path may have led through what is below it,
and is then followed no further than to there. -/
theorem LeadsTo.removed {es : Entries} (h : d.LeadsTo p old)
    (hes : d.entries.descend old = some es)
    (hrun : (tryCatch (removeDirectory p) fun e =>
      if e = .notFound then pure () else throw e).run (d.fill old []) = (.ok (), c)) :
    Removed d c p old := by
  rw [run_tryCatch] at hrun
  rcases removeDirectory_cases (d.fill old []) p with
    ⟨names, fs, hnames, -, hremove⟩ | ⟨names, fs, hlocked⟩ | ⟨e, hremove, hmissing⟩
  · -- the path still leads to the directory, now empty, and that is removed
    obtain rfl : names = old := (hnames.mono (fill_nil_grows old d).keepsWays rfl).unique h
    rw [hremove] at hrun
    rcases List.eq_nil_or_concat names with rfl | ⟨parent, name, hname⟩
    · cases hrun
      exact removed_of_emptied hfound (.inr ⟨rfl, hnames, hremove⟩)
    · rw [List.concat_eq_append] at hname
      have hnode := run_removeNode parent name (d.fill names [])
      rw [← hname] at hnode
      rw [hnode] at hrun
      cases hrun
      exact h.removed_of_entry hfound hes hname
  · -- a locked directory would have been there before
    obtain ⟨node, hgrown, hmark⟩ := followLinks_grows (fill_nil_grows old d) hlocked
    have hbefore : d.resolveRoute false { p.route with endsInSlash := false } =
        .ok (.existing names node) := hgrown
    rcases h.bare hes with hdirectory | ⟨names', target, hlink⟩
    · rw [hdirectory] at hbefore
      cases hbefore
      cases hmark
    · rw [hlink] at hbefore
      cases hbefore
      cases hmark
  · -- the path led through what is below the directory
    rw [hremove] at hrun
    dsimp only at hrun
    split at hrun
    · rename_i he
      cases hrun
      exact removed_of_emptied hfound
        (.inl (h.hasDirectory_eq_false hes (fill_nil_grows old d) rfl (hmissing he)))
    · cases hrun

end Directory

/-- A tree that is removed is gone, with all below it. -/
theorem removed_of_removeTree (h : (removeTree p).run d = (.ok (), c)) :
    ∃ old, Removed d c p old := by
  unfold removeTree at h
  rw [run_bind, run_place] at h
  cases hfound : d.resolve false p with
  | error e =>
    rw [hfound] at h
    cases h
  | ok place =>
    rw [hfound] at h
    dsimp only at h
    obtain ⟨r, hroute, hresolve⟩ := resolve_eq_ok.mp hfound
    obtain ⟨haccepted, rfl⟩ := isAccepted_of_route hroute
    cases place with
    | vacant parent name => cases h
    | existing old node =>
      refine ⟨old, ?_⟩
      -- files are refused, links are removed themselves, directories with all below
      cases node with
      | file content => cases h
      | link target =>
        obtain ⟨parent, name, hentry, rfl, -⟩ :=
          entryAt_of_existing haccepted hresolve (by simp) (by simp)
        dsimp only at h
        rw [run_removeNode] at h
        cases h
        exact hentry.removed hfound
      | locked es => cases h
      | directory es =>
        obtain ⟨hleads, hes⟩ := leadsTo_of_resolveRoute haccepted hresolve
        dsimp only at h
        rw [run_bind, run_modify] at h
        dsimp only at h
        split at h
        · -- nothing below the directory is left
          rename_i hleft
          rw [List.isEmpty_iff.mp hleft] at h
          exact hleads.removed hfound hes h
        · cases h

end Removing

end Disk

end NamingLint
