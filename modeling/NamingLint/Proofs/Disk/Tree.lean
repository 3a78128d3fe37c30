import Mathlib.Data.List.Nodup
import NamingLint.Proofs.Disk.Resolve

/-!
# NamingLint — the files that a walk looks at

What a walk looks at, told by names: the files that are not ignored and stand in no directory that
is, each with the names that lead to it, as far as the directories on the way can be listed.

* `Entries.IsProper` — what a file system sees to: every name in the tree is one that an entry can
  have, and no directory has a name twice.
* `Entries.allFiles` — the files of a tree, in the order of the listings.
* `Entries.seen` — the files that a walk looks at.
* `Entries.Keeps` — a file that the configuration does not leave out, told by the way to it.
* `Disk.ListsWay` — the directories on a way can be listed.

Main results:

* `isProper_of_directory?` — the directories that paths lead to on a proper disk are proper.
* `filterMap_visits` — the walk from a directory looks at these files, at the paths below it.
* `seen_eq_filter` — they are picked from the files of the tree by their names alone.
* `nodup_allFiles` — no two files have the same names.
* `mem_seen_iff` — a walk looks at the files that are kept and can be reached, and at nothing else.
* `filter_seen` — those below some directory are the ones that a walk from there looks at.
-/

namespace NamingLint

/-! ## Proper trees -/

mutual

/-- Is everything below a node properly named? -/
def Node.IsProper : Node → Prop
  | .file _ => True
  | .link _ => True
  | .locked es => Entries.IsProper es
  | .directory es => Entries.IsProper es

/-- Is everything properly named: every name one that an entry can have, and no name twice in a
directory? -/
def Entries.IsProper : Entries → Prop
  | [] => True
  | (name, node) :: es =>
    IsEntryName name ∧ (∀ e ∈ es, e.1 ≠ name) ∧ node.IsProper ∧ Entries.IsProper es

end

mutual

instance Node.decidableIsProper : (node : Node) → Decidable node.IsProper
  | .file _ => inferInstanceAs (Decidable True)
  | .link _ => inferInstanceAs (Decidable True)
  | .locked es => Entries.decidableIsProper es
  | .directory es => Entries.decidableIsProper es

instance Entries.decidableIsProper : (es : Entries) → Decidable (Entries.IsProper es)
  | [] => inferInstanceAs (Decidable True)
  | (name, node) :: es =>
    have := node.decidableIsProper
    have := Entries.decidableIsProper es
    inferInstanceAs (Decidable
      (IsEntryName name ∧ (∀ e ∈ es, e.1 ≠ name) ∧ node.IsProper ∧ Entries.IsProper es))

end

/-- What a proper directory holds is proper, locked or not. -/
theorem Node.IsProper.of_entries? {node : Node} (hnode : node.IsProper) {es : Entries}
    (h : node.entries? = some es) : Entries.IsProper es := by
  cases node with
  | file c => simp [Node.entries?] at h
  | link target => simp [Node.entries?] at h
  | locked fs =>
    obtain rfl : fs = es := by simpa [Node.entries?] using h
    exact hnode
  | directory fs =>
    obtain rfl : fs = es := by simpa [Node.entries?] using h
    exact hnode

namespace Entries

/-- What is found in proper entries is proper, under a name that can be one. -/
theorem IsProper.of_lookup {es : Entries} (hes : IsProper es) {n : String} {node : Node}
    (h : es.lookup n = some node) : IsEntryName n ∧ node.IsProper := by
  induction es with
  | nil => simp at h
  | cons e es ih =>
    obtain ⟨m, other⟩ := e
    obtain ⟨hm, -, hother, hrest⟩ := hes
    rw [List.lookup_cons] at h
    split at h
    · rename_i heq
      have hnm : n = m := by simpa using heq
      rw [Option.some.injEq] at h
      rw [hnm, ← h]
      exact ⟨hm, hother⟩
    · exact ih hrest h

/-- What names lead to in a proper tree is proper, and so are the names. -/
theorem IsProper.of_descend {es inner : Entries} (hes : IsProper es) {ns : List String}
    (h : es.descend ns = some inner) : (∀ n ∈ ns, IsEntryName n) ∧ IsProper inner := by
  induction ns generalizing es with
  | nil =>
    rw [descend, Option.some.injEq] at h
    exact ⟨by simp, h ▸ hes⟩
  | cons n ns ih =>
    obtain ⟨middle, hlookup, hrest⟩ := descend_cons_eq_some h
    -- each step leads to a proper directory
    obtain ⟨hn, hmiddle⟩ := hes.of_lookup hlookup
    obtain ⟨hns, hinner⟩ := ih hmiddle hrest
    exact ⟨List.forall_mem_cons.mpr ⟨hn, hns⟩, hinner⟩

/-- The names that lead somewhere in a proper tree, also past locked directories, are proper. -/
theorem IsProper.of_within {es : Entries} (hes : IsProper es) {ns : List String}
    (h : (es.within ns).isSome) : ∀ n ∈ ns, IsEntryName n := by
  induction ns generalizing es with
  | nil => simp
  | cons n ns ih =>
    obtain ⟨inner, hinner⟩ := Option.isSome_iff_exists.mp h
    rw [within] at hinner
    obtain ⟨middle, hmiddle, hrest⟩ := Option.bind_eq_some_iff.mp hinner
    obtain ⟨node, hlookup, hnode⟩ := Option.bind_eq_some_iff.mp hmiddle
    obtain ⟨hn, hproper⟩ := hes.of_lookup hlookup
    exact List.forall_mem_cons.mpr
      ⟨hn, ih (hproper.of_entries? hnode) (Option.isSome_iff_exists.mpr ⟨inner, hrest⟩)⟩

end Entries

namespace Disk

section Steps

variable {root : Entries} {followLast : Bool}

/-- Steps lead to something proper, if links do. -/
theorem follow_isProper (hroot : Entries.IsProper root)
    {onLink : List String → List String → Bool → Except DiskError Place}
    (hlink : ∀ dir steps w names node, onLink dir steps w = .ok (.existing names node) →
      node.IsProper)
    {w : Bool} {dir steps names : List String} {node : Node}
    (h : follow root followLast onLink w dir steps = .ok (.existing names node)) :
    node.IsProper := by
  -- by the branches of a step; what is found is in a directory of the disk, or behind a link
  induction steps generalizing dir with
  | nil =>
    rw [follow] at h
    split at h
    · rename_i es hes
      cases h
      exact (hroot.of_descend hes).2
    · simp at h
  | cons step steps ih =>
    rw [follow] at h
    split at h
    · exact ih h
    · split at h
      · exact ih h
      · split at h
        · simp at h
        · split at h
          · split at h <;> simp at h
          · exact ih h
          · rename_i hentry
            split at h
            · cases h
              obtain ⟨fs, hfs, hlookup⟩ := Option.bind_eq_some_iff.mp hentry
              exact ((hroot.of_descend hfs).2.of_lookup hlookup).2
            · simp at h
          · split at h
            · cases h
              exact trivial
            · simp at h
          · split at h
            · cases h
              exact trivial
            · exact hlink _ _ _ _ _ h

/-- Following steps in a proper tree leads to proper nodes. -/
theorem followLinks_isProper (hroot : Entries.IsProper root) {links : Nat}
    {dir steps names : List String} {w : Bool} {node : Node}
    (h : followLinks root followLast links dir steps w = .ok (.existing names node)) :
    node.IsProper := by
  induction links generalizing dir steps w names node with
  | zero => exact follow_isProper hroot (fun _ _ _ _ _ h => by simp at h) h
  | succ links ih => exact follow_isProper hroot (fun _ _ _ _ _ h => ih h) h

end Steps

/-- What a path leads to on a proper disk is proper. -/
theorem isProper_of_directory? {d : Disk} (hd : Entries.IsProper d.entries) {p : Path} {es : Entries}
    (h : d.directory? p = some es) : Entries.IsProper es := by
  obtain ⟨names, hresolve⟩ := node_eq_ok.mp (directory?_eq_some.mp h)
  obtain ⟨r, -, hplace⟩ := resolve_eq_ok.mp hresolve
  exact followLinks_isProper hd hplace

end Disk

/-! ## Files that a walk looks at -/

/-- A file with its path. -/
abbrev Located := Path × Content

/-- The file of a visit, if it is not ignored. -/
def Visit.file? : Visit → Option Located
  | .file path content => some (path, content)
  | _ => none

theorem Visit.file?_eq_some {v : Visit} {f : Located} : v.file? = some f ↔ v = .file f.1 f.2 := by
  cases v <;> simp [file?, Prod.ext_iff]

/-- A file with the names that lead to it. -/
abbrev Named := List String × Content

/-- A file seen from one directory further up. -/
def Named.under (name : String) (f : Named) : Named :=
  (name :: f.1, f.2)

/-- A file seen from a path. -/
def Named.locate (dir : Path) (f : Named) : Located :=
  (dir.below f.1, f.2)

mutual

/-- The files that a walk looks at, at and below an entry of a directory. -/
def Node.seen (c : Config) (path : Path) (name : String) : Node → List Named
  | .file content => if c.ignoresFile name then [] else [([name], content)]
  | .link _ => []
  | .locked _ => []
  | .directory es =>
    if c.ignoresDirectory name || Disk.isTooLong path then []
    else (Entries.seen c path es).map (.under name)

/-- The files that a walk looks at below a directory. -/
def Entries.seen (c : Config) (dir : Path) : Entries → List Named
  | [] => []
  | (name, node) :: es => node.seen c (dir.join ⟨name⟩) name ++ Entries.seen c dir es

end

mutual

/-- Of the visits of a walk, those of files are the files that are seen. -/
theorem Node.filterMap_visits (c : Config) (dir : Path) (name : String) : (node : Node) →
    (node.visits c (dir.join ⟨name⟩) name).filterMap Visit.file? =
      (node.seen c (dir.join ⟨name⟩) name).map (Named.locate dir)
  | .file content => by
    rw [Node.visits, Node.seen]
    split <;> rfl
  | .link target => by
    rw [Node.visits, Node.seen]
    split <;> rfl
  | .locked es => by
    rw [Node.visits, Node.seen]
    split <;> rfl
  | .directory es => by
    rw [Node.visits, Node.seen]
    -- a directory is left out by its name or by the length of its path; the others are walked
    cases c.ignoresDirectory name with
    | true => rfl
    | false =>
      cases Disk.isTooLong (dir.join ⟨name⟩) with
      | true => rfl
      | false =>
        rw [if_neg Bool.false_ne_true, if_neg Bool.false_ne_true, if_neg (by simp),
          Entries.filterMap_visits c (dir.join ⟨name⟩) es, List.map_map]
        rfl

/-- A walk looks at the files that it sees, at their paths below its start. -/
theorem Entries.filterMap_visits (c : Config) (dir : Path) : (es : Entries) →
    (Entries.visits c dir es).filterMap Visit.file? =
      (Entries.seen c dir es).map (Named.locate dir)
  | [] => rfl
  | (name, node) :: es => by
    rw [Entries.visits, Entries.seen, List.filterMap_append, List.map_append,
      Node.filterMap_visits c dir name node, Entries.filterMap_visits c dir es]

end

/-! ## All files of a tree -/

mutual

/-- The files at and below an entry of a directory, as far as directories can be entered. -/
def Node.allFiles (name : String) : Node → List Named
  | .file content => [([name], content)]
  | .link _ => []
  | .locked _ => []
  | .directory es => (Entries.allFiles es).map (.under name)

/-- The files below a directory, in the order of the listings. -/
def Entries.allFiles : Entries → List Named
  | [] => []
  | (name, node) :: es => node.allFiles name ++ Entries.allFiles es

end

theorem Entries.allFiles_eq_flatMap (es : Entries) :
    allFiles es = es.flatMap fun e => e.2.allFiles e.1 := by
  induction es with
  | nil => rfl
  | cons e es ih => rw [allFiles, ih, List.flatMap_cons]

/-- The names of a file start with that of the entry it is in. -/
theorem Node.exists_of_mem_allFiles {name : String} {node : Node} {f : Named}
    (h : f ∈ node.allFiles name) : ∃ rest, f.1 = name :: rest := by
  cases node with
  | file content =>
    rw [Node.allFiles, List.mem_singleton] at h
    exact ⟨[], by rw [h]⟩
  | link _ | locked _ => simp [Node.allFiles] at h
  | directory es =>
    obtain ⟨g, -, rfl⟩ := List.mem_map.mp h
    exact ⟨g.1, rfl⟩

/-- The names of a file start with that of an entry. -/
theorem Entries.exists_of_mem_allFiles {es : Entries} {f : Named} (h : f ∈ allFiles es) :
    ∃ e ∈ es, ∃ rest, f.1 = e.1 :: rest := by
  rw [allFiles_eq_flatMap] at h
  obtain ⟨e, he, hf⟩ := List.mem_flatMap.mp h
  exact ⟨e, he, Node.exists_of_mem_allFiles hf⟩

mutual

/-- All names on the way to a file can be names of entries. -/
theorem Node.isEntryName_of_mem_allFiles {name : String} (hname : IsEntryName name) :
    (node : Node) → node.IsProper → ∀ f ∈ node.allFiles name, ∀ n ∈ f.1, IsEntryName n
  | .file content, _, f, hf, n, hn => by
    rw [Node.allFiles, List.mem_singleton] at hf
    subst hf
    exact List.mem_singleton.mp hn ▸ hname
  | .link target, _, f, hf, n, hn => by simp [Node.allFiles] at hf
  | .locked es, _, f, hf, n, hn => by simp [Node.allFiles] at hf
  | .directory es, hes, f, hf, n, hn => by
    obtain ⟨g, hg, rfl⟩ := List.mem_map.mp hf
    -- the name of the directory, or one further down
    rcases List.mem_cons.mp hn with rfl | hn
    · exact hname
    · exact Entries.isEntryName_of_mem_allFiles es hes g hg n hn

/-- The names that lead to a file in a proper tree are proper. -/
theorem Entries.isEntryName_of_mem_allFiles :
    (es : Entries) → Entries.IsProper es → ∀ f ∈ Entries.allFiles es, ∀ n ∈ f.1, IsEntryName n
  | [], _, f, hf, n, hn => by simp [Entries.allFiles] at hf
  | (name, node) :: es, ⟨hname, _, hnode, hes⟩, f, hf, n, hn => by
    rw [Entries.allFiles] at hf
    rcases List.mem_append.mp hf with hf | hf
    · exact Node.isEntryName_of_mem_allFiles hname node hnode f hf n hn
    · exact Entries.isEntryName_of_mem_allFiles es hes f hf n hn

end

mutual

/-- No two files of an entry have the same names. -/
theorem Node.nodup_allFiles (name : String) :
    (node : Node) → node.IsProper → ((node.allFiles name).map Prod.fst).Nodup
  | .file content, _ => by simp [Node.allFiles]
  | .link target, _ => by simp [Node.allFiles]
  | .locked es, _ => by simp [Node.allFiles]
  | .directory es, hes => by
    -- the same first name is put before all of them
    have hunder : ((Entries.allFiles es).map (Named.under name)).map Prod.fst =
        ((Entries.allFiles es).map Prod.fst).map (name :: ·) := by
      rw [List.map_map, List.map_map]
      rfl
    rw [Node.allFiles, hunder]
    exact List.Nodup.map List.cons_injective (Entries.nodup_allFiles es hes)

/-- In a proper tree, no two files have the same names. -/
theorem Entries.nodup_allFiles :
    (es : Entries) → Entries.IsProper es → ((Entries.allFiles es).map Prod.fst).Nodup
  | [], _ => by simp [Entries.allFiles]
  | (name, node) :: es, ⟨_, hdistinct, hnode, hes⟩ => by
    rw [Entries.allFiles, List.map_append, List.nodup_append]
    refine ⟨Node.nodup_allFiles name node hnode, Entries.nodup_allFiles es hes, ?_⟩
    -- the names of files below different entries start differently
    rintro ms hms ns hns rfl
    obtain ⟨f, hf, rfl⟩ := List.mem_map.mp hms
    obtain ⟨g, hg, hfg⟩ := List.mem_map.mp hns
    obtain ⟨rest, hrest⟩ := Node.exists_of_mem_allFiles hf
    obtain ⟨e, he, rest', hrest'⟩ := Entries.exists_of_mem_allFiles hg
    rw [hfg, hrest, List.cons.injEq] at hrest'
    exact hdistinct e he hrest'.1.symm

end

/-! ## What a walk picks from them -/

/-- Does a walk from a directory look at a file with these names: does it enter the directories on the
way, and is the file not ignored? -/
def isOpen (c : Config) : Path → List String → Bool
  | _, [] => false
  | _, [name] => !c.ignoresFile name
  | dir, n :: m :: ns =>
    !(c.ignoresDirectory n || Disk.isTooLong (dir.join ⟨n⟩)) && isOpen c (dir.join ⟨n⟩) (m :: ns)

mutual

/-- A walk sees those files of an entry that nothing on the way closes off. -/
theorem Node.seen_eq_filter (c : Config) (dir : Path) (name : String) : (node : Node) →
    node.seen c (dir.join ⟨name⟩) name = (node.allFiles name).filter fun f => isOpen c dir f.1
  | .file content => by
    rw [Node.seen, Node.allFiles]
    cases hignored : c.ignoresFile name <;> simp [isOpen, hignored]
  | .link target => by rw [Node.seen, Node.allFiles, List.filter_nil]
  | .locked es => by rw [Node.seen, Node.allFiles, List.filter_nil]
  | .directory es => by
    -- the first name decides for all files of the directory
    have hopen : ∀ f ∈ Entries.allFiles es, isOpen c dir (f.under name).1 =
        (!(c.ignoresDirectory name || Disk.isTooLong (dir.join ⟨name⟩)) &&
          isOpen c (dir.join ⟨name⟩) f.1) := by
      intro f hf
      obtain ⟨e, -, rest, hrest⟩ := Entries.exists_of_mem_allFiles hf
      rw [Named.under, hrest]
      rfl
    rw [Node.seen, Node.allFiles, List.filter_map,
      Entries.seen_eq_filter c (dir.join ⟨name⟩) es]
    have hfilter : (Entries.allFiles es).filter ((fun f => isOpen c dir f.1) ∘ Named.under name) =
        (Entries.allFiles es).filter fun f =>
          !(c.ignoresDirectory name || Disk.isTooLong (dir.join ⟨name⟩)) &&
            isOpen c (dir.join ⟨name⟩) f.1 := List.filter_congr hopen
    rw [hfilter]
    cases c.ignoresDirectory name || Disk.isTooLong (dir.join ⟨name⟩) with
    | true => simp
    | false => simp

/-- A walk looks at the files of the tree that are open to it, in their order. -/
theorem Entries.seen_eq_filter (c : Config) (dir : Path) : (es : Entries) →
    Entries.seen c dir es = (Entries.allFiles es).filter fun f => isOpen c dir f.1
  | [] => rfl
  | (name, node) :: es => by
    rw [Entries.seen, Entries.allFiles, List.filter_append, Node.seen_eq_filter c dir name node,
      Entries.seen_eq_filter c dir es]

end

namespace Entries

/-- A walk sees files of the tree only. -/
theorem mem_allFiles_of_mem_seen {c : Config} {dir : Path} {es : Entries} {f : Named}
    (h : f ∈ seen c dir es) : f ∈ allFiles es := by
  rw [seen_eq_filter] at h
  exact List.mem_of_mem_filter h

theorem isEntryName_of_mem_seen {c : Config} {dir : Path} {es : Entries} (hes : IsProper es)
    {f : Named} (h : f ∈ seen c dir es) : ∀ n ∈ f.1, IsEntryName n :=
  isEntryName_of_mem_allFiles es hes f (mem_allFiles_of_mem_seen h)

/-- No two files that a walk looks at have the same names. -/
theorem nodup_seen (c : Config) (dir : Path) {es : Entries} (hes : IsProper es) :
    ((seen c dir es).map Prod.fst).Nodup := by
  rw [seen_eq_filter]
  exact (nodup_allFiles es hes).sublist (List.filter_sublist.map _)

end Entries

/-! ## Files below a directory -/

/-- Does a file stand below the directory that some names lead to? -/
def Named.isBelow (ns : List String) (f : Named) : Bool :=
  ns.isPrefixOf f.1

@[simp] theorem Named.isBelow_iff {ns : List String} {f : Named} :
    f.isBelow ns = true ↔ ns <+: f.1 :=
  List.isPrefixOf_iff_prefix

theorem Named.isBelow_under (n : String) (ns : List String) (f : Named) :
    (f.under n).isBelow (n :: ns) = f.isBelow ns := by
  simp [isBelow, under]

namespace Entries

/-- Below a name that no entry has, there is nothing. -/
theorem filter_allFiles_of_forall_ne {es : Entries} {n : String} (h : ∀ e ∈ es, e.1 ≠ n)
    (ns : List String) : (allFiles es).filter (Named.isBelow (n :: ns)) = [] := by
  rw [List.filter_eq_nil_iff]
  intro f hf hbelow
  obtain ⟨e, he, rest, hrest⟩ := exists_of_mem_allFiles hf
  rw [Named.isBelow_iff, hrest, List.cons_prefix_cons] at hbelow
  exact h e he hbelow.1.symm

/-- Below the name of an entry, there is what is below that entry. -/
theorem filter_allFiles_cons {es : Entries} (hes : IsProper es) {n : String} {node : Node}
    (h : es.lookup n = some node) (ns : List String) :
    (allFiles es).filter (Named.isBelow (n :: ns)) =
      (node.allFiles n).filter (Named.isBelow (n :: ns)) := by
  induction es with
  | nil => simp at h
  | cons e es ih =>
    obtain ⟨m, other⟩ := e
    obtain ⟨-, hdistinct, -, hrest⟩ := hes
    rw [allFiles, List.filter_append]
    rw [List.lookup_cons] at h
    split at h
    · rename_i heq
      have hnm : n = m := by simpa using heq
      rw [Option.some.injEq] at h
      subst hnm h
      rw [filter_allFiles_of_forall_ne hdistinct, List.append_nil]
    · rename_i hne
      -- files of another entry have its name in front
      have hother : (other.allFiles m).filter (Named.isBelow (n :: ns)) = [] := by
        rw [List.filter_eq_nil_iff]
        intro f hf hbelow
        obtain ⟨rest, hf⟩ := Node.exists_of_mem_allFiles hf
        rw [Named.isBelow_iff, hf, List.cons_prefix_cons] at hbelow
        simp [hbelow.1] at hne
      rw [hother, List.nil_append, ih hrest h]

/-- Of the files that a walk looks at, those below the name of an entry are below that entry. -/
theorem filter_seen_cons {c : Config} {dir : Path} {es : Entries} (hes : IsProper es) {n : String}
    {node : Node} (h : es.lookup n = some node) (ns : List String) :
    (seen c dir es).filter (Named.isBelow (n :: ns)) =
      (node.seen c (dir.join ⟨n⟩) n).filter (Named.isBelow (n :: ns)) := by
  rw [seen_eq_filter, Node.seen_eq_filter, List.filter_comm, filter_allFiles_cons hes h,
    List.filter_comm]

/-- The files below a directory that is not ignored are those that a walk from there looks at, and
there are none if it cannot be listed. -/
theorem filter_seen {c : Config} {d : Disk} {dir : Path} {es : Entries}
    (hdir : d.directory? dir = some es) (hes : IsProper es) {ns : List String}
    (hwithin : (es.within ns).isSome) (hopen : ∀ n ∈ ns, c.ignoresDirectory n = false) :
    (seen c dir es).filter (Named.isBelow ns) =
      ((d.directory? (dir.below ns)).elim [] fun inner =>
        (seen c (dir.below ns) inner).map fun f => (ns ++ f.1, f.2)) := by
  induction ns generalizing dir es with
  | nil =>
    rw [Path.below_nil, hdir]
    simp [Named.isBelow]
  | cons n ns ih =>
    have hnames := hes.of_within hwithin
    obtain ⟨inner, hinner⟩ := Option.isSome_iff_exists.mp hwithin
    obtain ⟨hn, hns⟩ := List.forall_mem_cons.mp hopen
    have hpath := hinner
    rw [within] at hpath
    obtain ⟨middle, hmiddle, hrest⟩ := Option.bind_eq_some_iff.mp hpath
    obtain ⟨node, hlookup, hnode⟩ := Option.bind_eq_some_iff.mp hmiddle
    rw [filter_seen_cons hes hlookup]
    cases node with
    | file content => simp [Node.entries?] at hnode
    | link target => simp [Node.entries?] at hnode
    | locked fs =>
      have hlocked : es.descend (n :: ns) = none := by simp [descend, hlookup]
      rw [(Disk.refuses_below hdir hnames hinner (.inl hlocked)).directory?_eq_none, Node.seen]
      rfl
    | directory fs =>
      obtain rfl : fs = middle := by simpa [Node.entries?] using hnode
      rw [Node.seen, hn, Bool.false_or]
      have hname : IsEntryName n := hnames n List.mem_cons_self
      have htext := Disk.text_ne_nil_of_directory? hdir
      cases hlong : Disk.isTooLong (dir.join ⟨n⟩) with
      | true =>
        -- what is below is even longer
        have hbelow : Disk.isTooLong (dir.below (n :: ns)) = true := by
          rw [Path.below_cons]
          exact Disk.isTooLong_below (Path.text_join_ne_nil htext hname)
            (fun m hm => hnames m (List.mem_cons_of_mem n hm)) hlong
        rw [(Disk.refuses_below hdir hnames hinner (.inr hbelow)).directory?_eq_none]
        rfl
      | false =>
        have hfs : d.directory? (dir.join ⟨n⟩) = some fs :=
          Disk.directory?_below hdir (List.forall_mem_singleton.mpr hname) hlong
            (by simp [descend, hlookup])
        have hunder : Named.isBelow (n :: ns) ∘ Named.under n = Named.isBelow ns := by
          funext f
          exact Named.isBelow_under n ns f
        rw [if_neg Bool.false_ne_true, List.filter_map, hunder,
          ih hfs (hes.of_lookup hlookup).2 (Option.isSome_iff_exists.mpr ⟨inner, hrest⟩) hns,
          Path.below_cons]
        cases d.directory? ((dir.join ⟨n⟩).below ns) with
        | none => rfl
        | some found =>
          rw [Option.elim_some, Option.elim_some, List.map_map]
          rfl

end Entries

/-! ## Coverage -/

namespace Entries

/-- A file below a directory that a configuration does not leave out: the names on the way to it lead
from directory to directory, none of these is ignored, and the file is not ignored either. -/
def Keeps (c : Config) (es : Entries) (f : Named) : Prop :=
  ∃ dirs name inner, f.1 = dirs ++ [name] ∧ es.within dirs = some inner ∧
    inner.lookup name = some (.file f.2) ∧ (∀ n ∈ dirs, c.ignoresDirectory n = false) ∧
    c.ignoresFile name = false

/-- In a proper directory a name leads to the entry that has it. -/
theorem lookup_eq_some_iff {es : Entries} (hes : IsProper es) {n : String} {node : Node} :
    es.lookup n = some node ↔ (n, node) ∈ es := by
  induction es with
  | nil => simp
  | cons e es ih =>
    obtain ⟨m, other⟩ := e
    obtain ⟨-, hdistinct, -, hrest⟩ := hes
    rw [List.lookup_cons, List.mem_cons, Prod.mk.injEq]
    by_cases hnm : n = m
    · subst hnm
      -- no later entry has the name
      have hnot : (n, node) ∉ es := fun hmem => hdistinct _ hmem rfl
      simp [hnot, eq_comm]
    · have hfalse : (n == m) = false := by simpa using hnm
      simp [hfalse, hnm, ih hrest]

/-- A file is seen if it is in one of the entries. -/
theorem mem_seen {c : Config} {dir : Path} {es : Entries} {f : Named} :
    f ∈ seen c dir es ↔ ∃ e ∈ es, f ∈ e.2.seen c (dir.join ⟨e.1⟩) e.1 := by
  induction es with
  | nil => simp [seen]
  | cons e es ih => simp [seen, ih]

end Entries

/-- What a walk looks at behind the first name: a file, or what it looks at in a directory. -/
theorem Node.cons_mem_seen {c : Config} {path : Path} {name n : String} {ns : List String}
    {content : Content} {node : Node} :
    (n :: ns, content) ∈ node.seen c path name ↔ n = name ∧
      (ns = [] ∧ node = .file content ∧ c.ignoresFile name = false ∨
        ∃ es, node = .directory es ∧ c.ignoresDirectory name = false ∧
          Disk.isTooLong path = false ∧ (ns, content) ∈ Entries.seen c path es) := by
  cases node with
  | file other =>
    rw [Node.seen]
    split
    · rename_i hignored
      simp [hignored]
    · rename_i hkept
      rw [List.mem_singleton, Prod.mk.injEq, List.cons.injEq]
      constructor
      · rintro ⟨⟨rfl, rfl⟩, rfl⟩
        exact ⟨rfl, .inl ⟨rfl, rfl, by simpa using hkept⟩⟩
      · rintro ⟨rfl, ⟨rfl, hfile, -⟩ | ⟨es, hes, -⟩⟩
        · cases hfile
          exact ⟨⟨rfl, rfl⟩, rfl⟩
        · simp at hes
  | link target => simp [Node.seen]
  | locked es => simp [Node.seen]
  | directory es =>
    rw [Node.seen]
    split
    · rename_i hskipped
      rw [Bool.or_eq_true] at hskipped
      -- ignored, or too long to be opened
      rcases hskipped with hskipped | hskipped <;> simp [hskipped]
    · rename_i hkept
      obtain ⟨hopen, hshort⟩ : c.ignoresDirectory name = false ∧ Disk.isTooLong path = false := by
        simpa using hkept
      simp only [List.mem_map, Named.under, Prod.mk.injEq, List.cons.injEq, Prod.exists]
      constructor
      · rintro ⟨ms, other, hmem, ⟨rfl, rfl⟩, rfl⟩
        exact ⟨rfl, .inr ⟨es, rfl, hopen, hshort, hmem⟩⟩
      · rintro ⟨rfl, ⟨-, hfile, -⟩ | ⟨fs, hfs, -, -, hmem⟩⟩
        · simp at hfile
        · cases hfs
          exact ⟨ns, content, hmem, ⟨rfl, rfl⟩, rfl⟩

/-- What is kept behind the first name: a file, or what is kept in a directory. -/
theorem Entries.keeps_cons {c : Config} {es : Entries} {n : String} {ns : List String}
    {content : Content} :
    Keeps c es (n :: ns, content) ↔
      ns = [] ∧ es.lookup n = some (.file content) ∧ c.ignoresFile n = false ∨
        ∃ inner, (es.lookup n).bind Node.entries? = some inner ∧ c.ignoresDirectory n = false ∧
          Keeps c inner (ns, content) := by
  constructor
  · rintro ⟨dirs, name, inner, hnames, hwithin, hfile, hopen, hkept⟩
    -- the file is in the directory itself or in one below
    cases dirs with
    | nil =>
      simp only [List.nil_append, List.cons.injEq] at hnames
      obtain ⟨rfl, rfl⟩ := hnames
      rw [within, Option.some.injEq] at hwithin
      subst hwithin
      exact .inl ⟨rfl, hfile, hkept⟩
    | cons d dirs =>
      simp only [List.cons_append, List.cons.injEq] at hnames
      obtain ⟨rfl, rfl⟩ := hnames
      rw [within] at hwithin
      obtain ⟨middle, hmiddle, hrest⟩ := Option.bind_eq_some_iff.mp hwithin
      obtain ⟨hn, hdirs⟩ := List.forall_mem_cons.mp hopen
      exact .inr ⟨middle, hmiddle, hn, dirs, name, inner, rfl, hrest, hfile, hdirs, hkept⟩
  · rintro (⟨rfl, hfile, hkept⟩ | ⟨middle, hmiddle, hn, hrest⟩)
    · exact ⟨[], n, es, rfl, rfl, hfile, by simp, hkept⟩
    · obtain ⟨dirs, name, inner, hnames, hwithin, hfile, hopen, hkept⟩ := hrest
      refine ⟨n :: dirs, name, inner, ?_, ?_, hfile, List.forall_mem_cons.mpr ⟨hn, hopen⟩, hkept⟩
      · exact congrArg (n :: ·) hnames
      · rw [within, hmiddle]
        exact hwithin

/-- Every directory on a way down from a path can be listed, the first and the last one included. -/
def Disk.ListsWay (d : Disk) (root : Path) (dirs : List String) : Prop :=
  ∀ above, above <+: dirs → (d.directory? (root.below above)).isSome

/-- The directories on the way can be listed, from the first one on. -/
theorem Disk.listsWay_cons {d : Disk} {root : Path} {n : String} {ns : List String}
    (hroot : (d.directory? root).isSome) :
    d.ListsWay root (n :: ns) ↔ d.ListsWay (root.join ⟨n⟩) ns := by
  constructor
  · intro h above habove
    exact h (n :: above) (List.cons_prefix_cons.mpr ⟨rfl, habove⟩)
  · intro h above habove
    -- the root is on the way too
    cases above with
    | nil => exact hroot
    | cons m above =>
      obtain ⟨rfl, hrest⟩ := List.cons_prefix_cons.mp habove
      exact h above hrest

/-- A walk looks at the files that are kept, if every directory on the way to them can be listed, and
at nothing else. -/
theorem Entries.mem_seen_iff {c : Config} {d : Disk} {dir : Path} {es : Entries}
    (hdir : d.directory? dir = some es) (hes : IsProper es) {f : Named} :
    f ∈ seen c dir es ↔ Keeps c es f ∧ d.ListsWay dir f.1.dropLast := by
  obtain ⟨ns, content⟩ := f
  induction ns generalizing dir es with
  | nil =>
    -- no file is at a directory's own place
    constructor
    · intro hmem
      obtain ⟨e, -, rest, hnames⟩ := exists_of_mem_allFiles (mem_allFiles_of_mem_seen hmem)
      simp at hnames
    · rintro ⟨⟨dirs, name, inner, hnames, -⟩, -⟩
      simp at hnames
  | cons n ns ih =>
    have hroot : (d.directory? dir).isSome := by simp [hdir]
    rw [mem_seen, keeps_cons]
    constructor
    · rintro ⟨⟨m, node⟩, hentry, hmem⟩
      obtain ⟨rfl, ⟨rfl, rfl, hkept⟩ | ⟨inner, rfl, hopen, hshort, hinner⟩⟩ :=
        Node.cons_mem_seen.mp hmem
      · refine ⟨.inl ⟨rfl, (lookup_eq_some_iff hes).mpr hentry, hkept⟩, ?_⟩
        intro above habove
        rw [List.prefix_nil.mp habove]
        exact hroot
      · have hlookup := (lookup_eq_some_iff hes).mpr hentry
        obtain ⟨hn, hproper⟩ := hes.of_lookup hlookup
        have hbelow : d.directory? (dir.join ⟨n⟩) = some inner :=
          Disk.directory?_below hdir (List.forall_mem_singleton.mpr hn) hshort
            (by simp [descend, hlookup])
        obtain ⟨hkeeps, hway⟩ := (ih hbelow hproper).mp hinner
        refine ⟨.inr ⟨inner, by simp [hlookup, Node.entries?], hopen, hkeeps⟩, ?_⟩
        obtain ⟨m, ms, rfl⟩ : ∃ m ms, ns = m :: ms := by
          obtain ⟨e, -, rest, hnames⟩ := exists_of_mem_allFiles (mem_allFiles_of_mem_seen hinner)
          exact ⟨_, rest, hnames⟩
        exact (Disk.listsWay_cons hroot).mpr hway
    · rintro ⟨⟨rfl, hlookup, hkept⟩ | ⟨inner, hmiddle, hopen, hkeeps⟩, hway⟩
      · exact ⟨(n, .file content), (lookup_eq_some_iff hes).mp hlookup,
          Node.cons_mem_seen.mpr ⟨rfl, .inl ⟨rfl, rfl, hkept⟩⟩⟩
      · obtain ⟨node, hlookup, hnode⟩ := Option.bind_eq_some_iff.mp hmiddle
        obtain ⟨hn, hproper⟩ := hes.of_lookup hlookup
        obtain ⟨m, ms, rfl⟩ : ∃ m ms, ns = m :: ms := by
          obtain ⟨dirs, name, -, hnames, -⟩ := hkeeps
          cases dirs with
          | nil => exact ⟨name, [], hnames⟩
          | cons m dirs => exact ⟨m, dirs ++ [name], hnames⟩
        have hrest := (Disk.listsWay_cons hroot).mp hway
        -- the first directory on the way can be listed, so it is not locked and its path not long
        have hfirst : (d.directory? (dir.below [n])).isSome := hrest [] (List.nil_prefix)
        obtain ⟨hdescend, hshort⟩ := (Disk.isSome_directory?_below_iff hdir
          (List.forall_mem_singleton.mpr hn) (by simp [within, hlookup, hnode])).mp hfirst
        cases node with
        | file other => simp [Node.entries?] at hnode
        | link target => simp [Node.entries?] at hnode
        | locked fs => simp [descend, hlookup] at hdescend
        | directory fs =>
          obtain rfl : fs = inner := by simpa [Node.entries?] using hnode
          have hbelow := Disk.directory?_below hdir (List.forall_mem_singleton.mpr hn) hshort
            (show es.descend [n] = some fs by simp [descend, hlookup])
          have hmem := (ih hbelow hproper).mpr ⟨hkeeps, hrest⟩
          exact ⟨(n, .directory fs), (lookup_eq_some_iff hes).mp hlookup,
            Node.cons_mem_seen.mpr ⟨rfl, .inr ⟨fs, rfl, hopen, hshort, hmem⟩⟩⟩

end NamingLint
