import NamingLint.Proofs.Analysis.Collect

/-!
# NamingLint — a tree analyzed in parts

The directories of a tree can be analyzed one by one. If no file is left out and no directory is
below another one, the results put together are the result of the whole tree, in whatever order and
with whatever bracketing they are put together. This asks of the rules to place what they report in
the file that they are looking at, and of the parts to be named by the way down from the root.

* `MergeTree` — a way to put results together two by two.
* `Partition` — directories that share out the files of a walk.

Main results:

* `merged_collect` — results put together are the result of all files together.
* `perm_of_partition` — the files of the parts are the files of the whole.
* `merged_parts_eq_whole` — parts put together make the whole.
* `merged_parts_may_differ` — not so where the rules, or the names of the parts, are not as asked.
-/

namespace NamingLint

/-! ## Ways to put results together -/

/-- A way to put things together two by two. -/
inductive MergeTree (α : Type) where
  | leaf (a : α)
  | node (left right : MergeTree α)

namespace MergeTree

variable {α : Type}

/-- What is put together, from left to right. -/
def leaves : MergeTree α → List α
  | leaf a => [a]
  | node left right => left.leaves ++ right.leaves

/-- The results put together. -/
def merged (result : α → RunResult) : MergeTree α → RunResult
  | leaf a => result a
  | node left right => (left.merged result).merge (right.merged result)

end MergeTree

/-- Results of collections put together are the result of all their files. -/
theorem Analyzer.merged_collect (a : Analyzer) {α : Type} {result : α → RunResult}
    {files : α → List Located} (t : MergeTree α)
    (h : ∀ i ∈ t.leaves, result i = (a.collect (files i)).sort) :
    t.merged result = (a.collect (t.leaves.flatMap files)).sort := by
  induction t with
  | leaf i => simpa [MergeTree.merged, MergeTree.leaves] using h i (by simp [MergeTree.leaves])
  | node left right ihl ihr =>
    rw [MergeTree.leaves] at h
    have hleft := ihl fun i hi => h i (List.mem_append_left _ hi)
    have hright := ihr fun i hi => h i (List.mem_append_right _ hi)
    rw [MergeTree.merged, hleft, hright, RunResult.merge, RunResult.sort_append_sort,
      MergeTree.leaves, List.flatMap_append, collect_append]

/-! ## Parts of a list -/

/-- A list is shared out by tests of which every member passes exactly one. -/
theorem flatMap_filter_perm {α ι : Type} {test : ι → α → Bool} {parts : List ι} {l : List α}
    (hapart : parts.Pairwise fun i j => ∀ x ∈ l, test i x = true → test j x = false)
    (hcover : ∀ x ∈ l, ∃ i ∈ parts, test i x = true) :
    (parts.flatMap fun i => l.filter (test i)).Perm l := by
  induction parts generalizing l with
  | nil =>
    have hnil : l = [] := List.eq_nil_iff_forall_not_mem.mpr fun x hx => by simpa using hcover x hx
    rw [hnil, List.flatMap_nil]
  | cons i parts ih =>
    obtain ⟨hi, hparts⟩ := List.pairwise_cons.mp hapart
    -- the later parts are parts of what the first one leaves
    have hrest : ∀ j ∈ parts, (l.filter fun x => !test i x).filter (test j) = l.filter (test j) := by
      intro j hj
      rw [List.filter_filter]
      apply List.filter_congr
      intro x hx
      by_cases hix : test i x = true
      · simp [hix, hi j hj x hx hix]
      · simp [hix]
    have hapart' : parts.Pairwise fun j k => ∀ x ∈ l.filter (fun x => !test i x),
        test j x = true → test k x = false :=
      hparts.imp fun h x hx => h x (List.mem_of_mem_filter hx)
    have hcover' : ∀ x ∈ l.filter (fun x => !test i x), ∃ j ∈ parts, test j x = true := by
      intro x hx
      obtain ⟨hx, hnot⟩ := List.mem_filter.mp hx
      obtain ⟨j, hj, htest⟩ := hcover x hx
      rcases List.mem_cons.mp hj with rfl | hj
      · simp [htest] at hnot
      · exact ⟨j, hj, htest⟩
    have hperm := ih hapart' hcover'
    rw [List.flatMap_congr hrest] at hperm
    rw [List.flatMap_cons]
    exact (hperm.append_left _).trans (List.filter_append_perm _ l)

/-! ## Parts of a tree -/

/-- The directories that some lists of names lead to share out the files of a walk from `root`,
which has the entries `es`. -/
structure Partition (c : Config) (root : Path) (es : Entries) (parts : List (List String)) :
    Prop where
  /-- Every part is a directory, and no link leads there. It need not be one that can be listed. -/
  real : ∀ ns ∈ parts, (es.within ns).isSome
  /-- Neither a part nor a directory on the way to it is ignored. -/
  entered : ∀ ns ∈ parts, ∀ n ∈ ns, c.ignoresDirectory n = false
  /-- No part is below another one. -/
  apart : parts.Pairwise fun ms ns => ¬ms <+: ns ∧ ¬ns <+: ms
  /-- Every file that is looked at is in one of the parts. -/
  covers : ∀ path content, Visit.file path content ∈ Entries.visits c root es →
    ∃ ns ∈ parts, (root.below ns).components <+: path.components

section Parts

variable {c : Config} {root : Path} {es : Entries} {parts : List (List String)}

/-- Every file that is looked at stands below one of the parts. -/
theorem exists_part (hroot : root.text.toList ≠ []) (hes : Entries.IsProper es)
    (h : Partition c root es parts) {f : Named} (hf : f ∈ Entries.seen c root es) :
    ∃ ns ∈ parts, f.isBelow ns = true := by
  have hlocated : f.locate root ∈ (Entries.visits c root es).filterMap Visit.file? := by
    rw [Entries.filterMap_visits]
    exact List.mem_map_of_mem hf
  -- a file that is seen is visited, and `covers` speaks of visits
  obtain ⟨visit, hvisit, hfile⟩ := List.mem_filterMap.mp hlocated
  rw [Visit.file?_eq_some.mp hfile] at hvisit
  obtain ⟨ns, hns, hprefix⟩ := h.covers _ _ hvisit
  have hnames := Entries.isEntryName_of_mem_seen hes hf
  exact ⟨ns, hns, Named.isBelow_iff.mpr
    (Path.prefix_of_below hroot (hes.of_within (h.real ns hns)) hnames hprefix)⟩

/-- The files of the parts are the files of the whole. -/
theorem perm_of_partition (hroot : root.text.toList ≠ []) (hes : Entries.IsProper es)
    (h : Partition c root es parts) :
    (parts.flatMap fun ns => (Entries.seen c root es).filter (Named.isBelow ns)).Perm
      (Entries.seen c root es) := by
  apply flatMap_filter_perm
  · refine h.apart.imp ?_
    rintro ms ns ⟨hms, hns⟩ f _ hf
    rw [Named.isBelow_iff] at hf
    rw [Bool.eq_false_iff, ne_eq, Named.isBelow_iff]
    -- two lists of names that lead to one file would start alike
    intro hf'
    rcases List.prefix_or_prefix_of_prefix hf hf' with hle | hle
    · exact hms hle
    · exact hns hle
  · intro f hf
    exact exists_part hroot hes h hf

end Parts

/-- The result of a directory below the start of a walk is made of the files of the walk that are
below it. -/
theorem Analyzer.analyzeDirectory_below (a : Analyzer) {d : Disk} {root : Path} {es : Entries}
    (hroot : d.directory? root = some es) (hes : Entries.IsProper es) {ns : List String}
    (hwithin : (es.within ns).isSome) (hopen : ∀ n ∈ ns, a.config.ignoresDirectory n = false) :
    a.analyzeDirectory d (root.below ns) = (a.collect
      (((Entries.seen a.config root es).filter (Named.isBelow ns)).map (Named.locate root))).sort := by
  rw [Entries.filter_seen hroot hes hwithin hopen]
  cases hdir : d.directory? (root.below ns) with
  | some inner =>
    rw [a.analyzeDirectory_of_directory hdir, Option.elim_some, List.map_map]
    congr 2
    apply List.map_congr_left
    intro f _
    simp only [Named.locate, Function.comp_apply, Path.below_append]
  | none =>
    -- a directory that cannot be listed is one without files for either walk
    have hrefuses : d.Refuses (root.below ns) :=
      Disk.refuses_of_directory?_eq_none hroot (hes.of_within hwithin) hwithin hdir
    rw [a.analyzeDirectory_of_refuses hrefuses]
    rfl

/-- Directories that share out the files of a walk, analyzed one by one, make the result of the walk
when they are put together, in any order and with any bracketing, if rules place what they report in
the file that they are looking at. The start of the walk may be reached through links; the tree below
it is one that a file system can hold. -/
theorem merged_parts_eq_whole (a : Analyzer) (htable : a.table.ReportsOwnFiles) (d : Disk)
    {root : Path} {es : Entries} (hroot : d.directory? root = some es) (hes : Entries.IsProper es)
    {parts : List (List String)} (hparts : Partition a.config root es parts)
    (t : MergeTree (List String)) (ht : t.leaves.Perm parts) :
    t.merged (fun ns => a.analyzeDirectory d (root.below ns)) = a.analyzeDirectory d root := by
  have htext := Disk.text_ne_nil_of_directory? hroot
  -- a part gives the files of the whole that are below it
  have hpart : ∀ ns ∈ t.leaves, a.analyzeDirectory d (root.below ns) = (a.collect
      (((Entries.seen a.config root es).filter (Named.isBelow ns)).map (Named.locate root))).sort := by
    intro ns hns
    have hmem : ns ∈ parts := ht.mem_iff.mp hns
    exact a.analyzeDirectory_below hroot hes (hparts.real ns hmem) (hparts.entered ns hmem)
  have hperm : (t.leaves.flatMap fun ns =>
      ((Entries.seen a.config root es).filter (Named.isBelow ns)).map (Named.locate root)).Perm
        ((Entries.seen a.config root es).map (Named.locate root)) := by
    rw [← List.map_flatMap]
    exact ((ht.flatMap_right _).trans (perm_of_partition htext hes hparts)).map _
  rw [a.merged_collect t hpart, a.analyzeDirectory_of_directory hroot]
  exact (Analyzer.sort_collect_perm htable hperm.symm (pairwise_locate htext hes)).symm

/-- A project of two packages, with a directory that is ignored and one that cannot be listed. -/
def packages : Entries :=
  [("a", .directory
      [("one.ts", .file (.text "enum Good\nenum bad // TODO\n".toList)),
        ("deep", .directory [("two.ts", .file (.text "enum worse\nTODO".toList))])]),
    ("node_modules", .directory [("m.ts", .file (.text "enum ugly".toList))]),
    ("b", .directory
      [("three.js", .file (.text "enum Fine\n'' TODO @allowTodo".toList)),
        ("notes.md", .file (.text "enum ignored".toList)),
        ("shut", .locked [("four.ts", .file (.text "enum lost".toList))])])]

/-- A disk with that project. -/
def packagesDisk : Disk :=
  ⟨[("p", .directory packages)], []⟩

/-- Enumerations are to be in Pascal case, and no `TODO` may be left. -/
def lineAnalyzer : Analyzer :=
  ⟨⟨"/p"⟩,
    { Config.standard with
      casing := Casing.unset.set .enums (some .pascal)
      options := { Config.standard.options with noAny := true } },
    .lineRules⟩

theorem partition_packages : Partition lineAnalyzer.config ⟨"/p"⟩ packages [["b"], ["a"]] where
  real := by decide
  entered := by decide
  apart := by decide
  covers path content h := by
    have hvisits : Entries.visits lineAnalyzer.config ⟨"/p"⟩ packages =
        [.file ⟨"/p/a/one.ts"⟩ (.text "enum Good\nenum bad // TODO\n".toList),
          .file ⟨"/p/a/deep/two.ts"⟩ (.text "enum worse\nTODO".toList),
          .ignored ⟨"/p/node_modules"⟩,
          .file ⟨"/p/b/three.js"⟩ (.text "enum Fine\n'' TODO @allowTodo".toList),
          .file ⟨"/p/b/notes.md"⟩ (.text "enum ignored".toList),
          .refused ⟨"/p/b/shut"⟩ .accessDenied] := by decide
    rw [hvisits] at h
    simp only [List.mem_cons, Visit.file.injEq, reduceCtorEq, false_or, List.not_mem_nil,
      or_false] at h
    rcases h with ⟨rfl, -⟩ | ⟨rfl, -⟩ | ⟨rfl, -⟩ | ⟨rfl, -⟩
    · exact ⟨["a"], by decide, by decide⟩
    · exact ⟨["a"], by decide, by decide⟩
    · exact ⟨["b"], by decide, by decide⟩
    · exact ⟨["b"], by decide, by decide⟩

theorem merged_packages_eq_whole :
    lineAnalyzer.table.ReportsOwnFiles ∧
    Partition lineAnalyzer.config ⟨"/p"⟩ packages [["b"], ["a"]] ∧
    (MergeTree.node (.leaf ["b"]) (.leaf ["a"])).merged
        (fun ns => lineAnalyzer.analyzeDirectory packagesDisk (Path.below ⟨"/p"⟩ ns)) =
      lineAnalyzer.analyzeDirectory packagesDisk ⟨"/p"⟩ ∧
    (lineAnalyzer.analyzeDirectory packagesDisk ⟨"/p"⟩).tallies.get .enums = ⟨2, 2⟩ ∧
    (lineAnalyzer.analyzeDirectory packagesDisk ⟨"/p"⟩).checked = 3 :=
  ⟨RuleTable.reportsOwnFiles_lineRules, partition_packages,
    merged_parts_eq_whole lineAnalyzer RuleTable.reportsOwnFiles_lineRules packagesDisk rfl
      (by decide) partition_packages _ (by decide), by decide, by decide⟩

/-- Notes that a rule leaves in the same place come in the order in which the parts are put together,
not in that of the walk. And a part that is reached another way has its findings there. -/
theorem merged_parts_may_differ :
    (Partition signpostAnalyzer.config ⟨"/p"⟩ packages [["b"], ["a"]] ∧
      (signpostAnalyzer.analyzeDirectory packagesDisk ⟨"/p"⟩).findings.map (·.message) =
        ["/p/a/one.ts", "/p/a/deep/two.ts", "/p/b/three.js"] ∧
      ((MergeTree.node (.leaf ["b"]) (.leaf ["a"])).merged fun ns =>
        signpostAnalyzer.analyzeDirectory packagesDisk (Path.below ⟨"/p"⟩ ns)).findings.map
          (·.message) = ["/p/b/three.js", "/p/a/one.ts", "/p/a/deep/two.ts"]) ∧
    (lineAnalyzer.analyzeDirectory packagesDisk ⟨"/p/a/deep"⟩).findings.map
      (·.location.path.text) = ["/p/a/deep/two.ts"] ∧
    (lineAnalyzer.analyzeDirectory packagesDisk ⟨"/p/a/../a/deep"⟩).findings.map
      (·.location.path.text) = ["/p/a/../a/deep/two.ts"] := by
  -- the parts are in order as they are, so sorting them need not be computed
  have hb := @Analyzer.findings_of_pairwise signpostAnalyzer packagesDisk ⟨"/p/b"⟩ _ rfl (by decide)
  have ha := @Analyzer.findings_of_pairwise signpostAnalyzer packagesDisk ⟨"/p/a"⟩ _ rfl (by decide)
  refine ⟨⟨⟨by decide, by decide, by decide, partition_packages.covers⟩, ?_, ?_⟩, ?_, ?_⟩
  · rw [Analyzer.findings_of_pairwise rfl (by decide)]
    decide
  · show (Finding.sorted ((signpostAnalyzer.analyzeDirectory packagesDisk ⟨"/p/b"⟩).findings ++
      (signpostAnalyzer.analyzeDirectory packagesDisk ⟨"/p/a"⟩).findings)).map _ = _
    rw [hb, ha, Finding.sorted, List.mergeSort_of_pairwise (by decide)]
    decide
  · rw [Analyzer.findings_of_pairwise rfl (by decide)]
    decide
  · rw [Analyzer.findings_of_pairwise rfl (by decide)]
    decide

end NamingLint
