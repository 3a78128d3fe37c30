import NamingLint.Proofs.Disk.Tree

/-!
# NamingLint — the order in which directories list their entries

A directory lists its entries in an order of the file system's own. Names lead to the same entries
whatever that order is, as long as no directory has a name twice, and a walk meets the same files
one way or the other.

* `Node.Relisted`, `Entries.Relisted` — the same tree, every directory in it listed in some order.
* `Disk.Relisted` — the same disk in this sense.

Main results:

* `Entries.Relisted.of_perm` — every order of a directory is such an order.
* `Disk.Relisted.node`, `Disk.Relisted.directory?` — paths lead to the same nodes, and fail in the
  same way.
* `Entries.Relisted.perm_seen` — a walk looks at the same files.
-/

namespace NamingLint

/-! ## Listings -/

mutual

/-- The same node, with the directories at and below it listed in some order. -/
inductive Node.Relisted : Node → Node → Prop where
  | file (content : Content) : Node.Relisted (.file content) (.file content)
  | link (target : String) : Node.Relisted (.link target) (.link target)
  | directory {es fs : Entries} (listed : Entries.Relisted es fs) :
    Node.Relisted (.directory es) (.directory fs)
  | locked {es fs : Entries} (listed : Entries.Relisted es fs) :
    Node.Relisted (.locked es) (.locked fs)

/-- The same entries in some order, and each of them with its own directories in some order. -/
inductive Entries.Relisted : Entries → Entries → Prop where
  | nil : Entries.Relisted [] []
  | cons (name : String) {node node' : Node} {es fs : Entries} (first : Node.Relisted node node')
    (rest : Entries.Relisted es fs) : Entries.Relisted ((name, node) :: es) ((name, node') :: fs)
  | swap (e f : String × Node) (es : Entries) : Entries.Relisted (e :: f :: es) (f :: e :: es)
  | trans {es fs gs : Entries} (first : Entries.Relisted es fs) (second : Entries.Relisted fs gs) :
    Entries.Relisted es gs

end

mutual

theorem Node.Relisted.refl : (node : Node) → node.Relisted node
  | .file content => .file content
  | .link target => .link target
  | .directory es => .directory (Entries.Relisted.refl es)
  | .locked es => .locked (Entries.Relisted.refl es)

theorem Entries.Relisted.refl : (es : Entries) → Entries.Relisted es es
  | [] => .nil
  | (name, node) :: es => .cons name (Node.Relisted.refl node) (Entries.Relisted.refl es)

end

/-- A directory may be listed in any order at all. -/
theorem Entries.Relisted.of_perm {es fs : Entries} (h : es.Perm fs) : Entries.Relisted es fs := by
  induction h with
  | nil => exact .nil
  | cons e _ ih => exact .cons e.1 (Node.Relisted.refl e.2) ih
  | swap e f es => exact .swap f e es
  | trans _ _ ih₁ ih₂ => exact .trans ih₁ ih₂

/-- Listings may be changed twice. -/
theorem Node.Relisted.trans {node node' node'' : Node} (h : node.Relisted node')
    (h' : node'.Relisted node'') : node.Relisted node'' := by
  cases h with
  | file content => exact h'
  | link target => exact h'
  | directory hes =>
    cases h' with
    | directory hfs => exact .directory (hes.trans hfs)
  | locked hes =>
    cases h' with
    | locked hfs => exact .locked (hes.trans hfs)

/-! ## Names -/

namespace Entries

/-- The names stay, in another order. -/
theorem Relisted.perm_names : {es fs : Entries} → Relisted es fs →
    (es.map Prod.fst).Perm (fs.map Prod.fst)
  | _, _, .nil => .nil
  | _, _, .cons name _ hes => .cons name hes.perm_names
  | _, _, .swap e f es => .swap f.1 e.1 (es.map Prod.fst)
  | _, _, .trans h₁ h₂ => h₁.perm_names.trans h₂.perm_names

/-- A name that is not there is not there in another order. -/
theorem Relisted.forall_ne {es fs : Entries} (h : Relisted es fs) {name : String}
    (hes : ∀ e ∈ es, e.1 ≠ name) : ∀ f ∈ fs, f.1 ≠ name := by
  intro f hf hname
  have hmem : name ∈ es.map Prod.fst := by
    rw [h.perm_names.mem_iff, ← hname]
    exact List.mem_map_of_mem hf
  obtain ⟨e, he, hename⟩ := List.mem_map.mp hmem
  exact hes e he hename

end Entries

mutual

/-- Whether a tree is proper does not depend on the order of listings. -/
theorem Node.Relisted.isProper : {node node' : Node} → node.Relisted node' → node.IsProper →
    node'.IsProper
  | _, _, .file _, h => h
  | _, _, .link _, h => h
  | _, _, .directory hes, h => hes.isProper h
  | _, _, .locked hes, h => hes.isProper h

/-- Being properly named does not depend on the order. -/
theorem Entries.Relisted.isProper : {es fs : Entries} → Entries.Relisted es fs →
    Entries.IsProper es → Entries.IsProper fs
  | _, _, .nil, h => h
  | _, _, .cons _ hnode hes, ⟨hname, hdistinct, hproper, hrest⟩ =>
    ⟨hname, hes.forall_ne hdistinct, hnode.isProper hproper, hes.isProper hrest⟩
  | _, _, .swap (m, _) (n, _) es, ⟨hm, hdistinct, hnode, hn, hdistinct', hnode', hrest⟩ => by
    obtain ⟨hne, hm'⟩ := List.forall_mem_cons.mp hdistinct
    exact ⟨hn, List.forall_mem_cons.mpr ⟨Ne.symm hne, hdistinct'⟩, hnode', hm, hm', hnode, hrest⟩
  | _, _, .trans h₁ h₂, h => h₂.isProper (h₁.isProper h)

end

/-- Related options are both empty, or both hold something. -/
theorem eq_of_optionRel {α : Type} {r : α → α → Prop} {x y : Option α} (h : Option.Rel r x y) :
    (x = none ∧ y = none) ∨ ∃ a b, x = some a ∧ y = some b ∧ r a b := by
  cases h with
  | none => exact .inl ⟨rfl, rfl⟩
  | some hab => exact .inr ⟨_, _, rfl, rfl, hab⟩

namespace Entries

/-- Two entries of different names are found in either order. -/
theorem lookup_swap {m n : String} (hne : n ≠ m) (node node' : Node) (es : Entries) (x : String) :
    List.lookup x ((m, node) :: (n, node') :: es) = List.lookup x ((n, node') :: (m, node) :: es) := by
  simp only [List.lookup_cons]
  by_cases hxm : x = m
  · subst hxm
    have hfalse : (x == n) = false := by simpa using Ne.symm hne
    simp only [hfalse, beq_self_eq_true]
  · have hfalse : (x == m) = false := by simpa using hxm
    simp only [hfalse]

/-- A name leads to the same node in both listings. -/
theorem Relisted.lookup : {es fs : Entries} → Relisted es fs → IsProper es → (x : String) →
    Option.Rel Node.Relisted (es.lookup x) (fs.lookup x)
  | _, _, .nil, _, _ => .none
  | _, _, .cons name hnode hes, ⟨_, _, _, hrest⟩, x => by
    rw [List.lookup_cons, List.lookup_cons]
    split
    · exact .some hnode
    · exact hes.lookup hrest x
  | _, _, .swap (m, node) (n, node') es, ⟨_, hdistinct, _⟩, x => by
    -- no name stands twice, so neither of the two entries hides the other
    have hne : n ≠ m := (List.forall_mem_cons.mp hdistinct).1
    rw [lookup_swap hne]
    cases List.lookup x ((n, node') :: (m, node) :: es) with
    | none => exact .none
    | some found => exact .some (.refl found)
  | es, gs, @Relisted.trans _ fs _ h₁ h₂, hes, x => by
    have hfirst := h₁.lookup hes x
    have hsecond := h₂.lookup (h₁.isProper hes) x
    -- the name is found in all three listings or in none
    revert hfirst hsecond
    cases es.lookup x <;> cases fs.lookup x <;> cases gs.lookup x
    all_goals rintro (h | _) (h' | _)
    · exact .none
    · exact .some (h.trans h')

/-- Names lead to the same directory in both listings. -/
theorem Relisted.descend {es fs : Entries} (h : Relisted es fs) (hes : IsProper es)
    (ns : List String) : Option.Rel Relisted (es.descend ns) (fs.descend ns) := by
  induction ns generalizing es fs with
  | nil => exact .some h
  | cons n ns ih =>
    rw [Entries.descend, Entries.descend]
    rcases eq_of_optionRel (h.lookup hes n) with ⟨hes', hfs'⟩ | ⟨node, node', hes', hfs', hnode⟩
    · simp only [hes', hfs']
      exact .none
    · simp only [hes', hfs']
      -- both find nodes of one kind, and only directories are entered
      cases hnode with
      | file content => exact .none
      | link target => exact .none
      | locked hinner => exact .none
      | directory hinner => exact ih hinner (hes.of_lookup hes').2

/-- The same directories are there. -/
theorem Relisted.isSome_descend {es fs : Entries} (h : Relisted es fs) (hes : IsProper es)
    (ns : List String) : (es.descend ns).isSome = (fs.descend ns).isSome := by
  rcases eq_of_optionRel (h.descend hes ns) with ⟨hes', hfs'⟩ | ⟨inner, inner', hes', hfs', -⟩
  · rw [hes', hfs']
  · rw [hes', hfs']
    rfl

/-- Under each name there is the same node, up to the order of listings. -/
theorem Relisted.entry {es fs : Entries} (h : Relisted es fs) (hes : IsProper es)
    (ns : List String) (x : String) :
    Option.Rel Node.Relisted ((es.descend ns).bind fun inner => inner.lookup x)
      ((fs.descend ns).bind fun inner => inner.lookup x) := by
  rcases eq_of_optionRel (h.descend hes ns) with ⟨hes', hfs'⟩ | ⟨inner, inner', hes', hfs', hinner⟩
  · rw [hes', hfs']
    exact .none
  · rw [hes', hfs']
    exact hinner.lookup (hes.of_descend hes').2 x

end Entries

/-! ## Paths -/

/-- The same place, with what stands there listed in some order. -/
inductive Place.Relisted : Place → Place → Prop where
  | existing (names : List String) {node node' : Node} (found : node.Relisted node') :
    Relisted (.existing names node) (.existing names node')
  | vacant (parent : List String) (name : String) :
    Relisted (.vacant parent name) (.vacant parent name)

/-- Both fail in the same way, or both succeed with results that are related. -/
inductive DiskError.Agree {α : Type} (related : α → α → Prop) :
    Except DiskError α → Except DiskError α → Prop where
  | ok {a b : α} (results : related a b) : Agree related (.ok a) (.ok b)
  | error (e : DiskError) : Agree related (.error e) (.error e)

/-- The same disk, with its directories listed in some order. -/
structure Disk.Relisted (d d' : Disk) : Prop where
  entries : Entries.Relisted d.entries d'.entries
  cwd : d.cwd = d'.cwd

namespace Disk

section Steps

variable {root root' : Entries} {followLast : Bool}

/-- Steps lead to the same place in both listings. The hypothesis says the same of what is done at
links. -/
theorem follow_relisted (h : Entries.Relisted root root') (hroot : Entries.IsProper root)
    {onLink onLink' : List String → List String → Bool → Except DiskError Place}
    (hlink : ∀ dir steps w,
      DiskError.Agree Place.Relisted (onLink dir steps w) (onLink' dir steps w))
    (w : Bool) (dir steps : List String) :
    DiskError.Agree Place.Relisted (follow root followLast onLink w dir steps)
      (follow root' followLast onLink' w dir steps) := by
  induction steps generalizing dir with
  | nil =>
    rw [follow, follow]
    rcases eq_of_optionRel (h.descend hroot dir) with ⟨hes, hfs⟩ | ⟨es, fs, hes, hfs, hlisted⟩
    · rw [hes, hfs]
      exact .error .notFound
    · rw [hes, hfs]
      exact .ok (.existing dir (.directory hlisted))
  | cons step steps ih =>
    rw [follow, follow]
    -- both go the same way, since all that is asked of the tree is what stands under a name
    split
    · exact ih dir
    · split
      · exact ih dir.dropLast
      · split
        · exact .error .nameTooLong
        · rcases eq_of_optionRel (h.entry hroot dir step) with
            ⟨hes, hfs⟩ | ⟨node, node', hes, hfs, hnode⟩
          · rw [hes, hfs, h.isSome_descend hroot]
            dsimp only
            split
            · exact .ok (.vacant dir step)
            · exact .error .notFound
          · rw [hes, hfs]
            cases hnode with
            | directory hinner => exact ih (dir ++ [step])
            | locked hinner =>
              dsimp only
              split
              · exact .ok (.existing (dir ++ [step]) (.locked hinner))
              · exact .error .accessDenied
            | file content =>
              dsimp only
              split
              · exact .ok (.existing (dir ++ [step]) (.file content))
              · exact .error .notDirectory
            | link target =>
              dsimp only
              split
              · exact .ok (.existing (dir ++ [step]) (.link target))
              · exact hlink _ _ _

/-- Steps lead to the same place, or fail with the same error. -/
theorem followLinks_relisted (h : Entries.Relisted root root') (hroot : Entries.IsProper root)
    (links : Nat) (dir steps : List String) (w : Bool) :
    DiskError.Agree Place.Relisted (followLinks root followLast links dir steps w)
      (followLinks root' followLast links dir steps w) := by
  -- on the number of links that may still be followed
  induction links generalizing dir steps w with
  | zero => exact follow_relisted h hroot (fun _ _ _ => .error .tooManyLinks) w dir steps
  | succ links ih => exact follow_relisted h hroot ih w dir steps

end Steps

variable {d d' : Disk}

/-- Paths lead to the same places, whatever the order of the entries. -/
theorem Relisted.resolve (h : d.Relisted d') (hd : Entries.IsProper d.entries) (followLast : Bool)
    (p : Path) :
    DiskError.Agree Place.Relisted (d.resolve followLast p) (d'.resolve followLast p) := by
  rw [Disk.resolve, Disk.resolve]
  cases route p with
  | error e => exact .error e
  | ok r =>
    show DiskError.Agree Place.Relisted (d.resolveRoute followLast r) (d'.resolveRoute followLast r)
    rw [resolveRoute, resolveRoute, h.cwd]
    exact followLinks_relisted h.entries hd linkLimit _ r.steps r.endsInSlash

/-- A path leads to the same node on both disks, or fails in the same way. -/
theorem Relisted.node (h : d.Relisted d') (hd : Entries.IsProper d.entries) (followLast : Bool)
    (p : Path) : DiskError.Agree Node.Relisted (d.node followLast p) (d'.node followLast p) := by
  have hresolve := h.resolve hd followLast p
  rw [Disk.node, Disk.node]
  -- all that is used of the two places is that they agree
  generalize d.resolve followLast p = place at hresolve
  generalize d'.resolve followLast p = place' at hresolve
  cases hresolve with
  | error e => exact .error e
  | ok hplace =>
    cases hplace with
    | existing names hnode => exact .ok hnode
    | vacant parent name => exact .error .notFound

/-- A directory is there in both trees, with the same entries in another order. -/
theorem Relisted.directory? (h : d.Relisted d') (hd : Entries.IsProper d.entries)
    {p : Path} {es : Entries} (hes : d.directory? p = some es) :
    ∃ fs, d'.directory? p = some fs ∧ Entries.Relisted es fs := by
  have hnode := h.node hd true p
  rw [directory?_eq_some.mp hes] at hnode
  generalize hfound : d'.node true p = found at hnode
  cases hnode with
  | ok hnode =>
    cases hnode with
    | directory hlisted => exact ⟨_, directory?_eq_some.mpr hfound, hlisted⟩

/-- A walk that does not start at a directory is the same on both disks. -/
theorem Relisted.walk_eq (h : d.Relisted d') (hd : Entries.IsProper d.entries)
    (c : Config) {p : Path} (hnone : d.directory? p = none) : d.walk c p = d'.walk c p := by
  have hfollowed := h.node hd true p
  have hstayed := h.node hd false p
  have htrue : ∀ es, d.node true p ≠ .ok (.directory es) := by
    intro es hes
    rw [directory?_eq_some.mpr hes] at hnone
    simp at hnone
  have hfalse : ∀ es, d.node false p ≠ .ok (.directory es) := by
    intro es hes
    rcases d.node_last p with hsame | ⟨target, hlink⟩
    · exact htrue es (hsame.symm.trans hes)
    · rw [hlink] at hes
      simp at hes
  -- the walk asks for the node twice, once without passing the last link
  rw [walk, walk]
  generalize d.node false p = stayed at hstayed hfalse
  generalize d'.node false p = stayed' at hstayed
  generalize d.node true p = followed at hfollowed htrue
  generalize d'.node true p = followed' at hfollowed
  cases hstayed with
  | error e => rfl
  | ok hnode =>
    cases hnode with
    | file content => rfl
    | locked hes => rfl
    | directory hes => exact absurd rfl (hfalse _)
    | link target =>
      -- a link at the start is followed once, to see whether it leads to a directory
      cases hfollowed with
      | error e => rfl
      | ok hnode =>
        cases hnode with
        | file content => rfl
        | link target => rfl
        | locked hes => rfl
        | directory hes => exact absurd rfl (htrue _)

end Disk

/-! ## Walks -/

mutual

/-- A walk sees the same files, in another order. -/
theorem Node.Relisted.perm_seen (c : Config) (path : Path) (name : String) : {node node' : Node} →
    node.Relisted node' → (node.seen c path name).Perm (node'.seen c path name)
  | _, _, .file _ => .refl _
  | _, _, .link _ => .refl _
  | _, _, .locked _ => by rw [Node.seen, Node.seen]
  | _, _, .directory hes => by
    rw [Node.seen, Node.seen]
    split
    · exact .nil
    · exact (hes.perm_seen c path).map _

/-- A walk looks at the same files. -/
theorem Entries.Relisted.perm_seen (c : Config) (dir : Path) : {es fs : Entries} →
    Entries.Relisted es fs → (Entries.seen c dir es).Perm (Entries.seen c dir fs)
  | _, _, .nil => .nil
  | _, _, .cons name hnode hes => by
    rw [Entries.seen, Entries.seen]
    exact (hnode.perm_seen c _ name).append (hes.perm_seen c dir)
  | _, _, .swap (m, node) (n, node') es => by
    -- the files of the two entries change places as blocks
    simp only [Entries.seen, ← List.append_assoc]
    exact List.perm_append_comm.append_right _
  | _, _, .trans h₁ h₂ => (h₁.perm_seen c dir).trans (h₂.perm_seen c dir)

end

end NamingLint
