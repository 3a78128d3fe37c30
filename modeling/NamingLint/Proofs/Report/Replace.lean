import NamingLint.Proofs.Disk.Change
import NamingLint.Report.Artifact

/-!
# NamingLint — replacing a report directory

A report directory is removed with everything in it and made anew, and its files are written into the
new directory one by one. What is left is one directory with these files and nothing else.

* `Report.cleared` — the disk between the removal and what is made anew.
* `Report.Slot` — the disks that differ in what the report directory holds, and in nothing else.
* `Report.entries` — what a report directory holds.

Main results:

* `slot_of_resetDirectory` — after a reset the path leads to an empty directory.
* `run_writeArtifacts` — the files are written into that directory, in order.
* `slot_of_write` — a report that was written.
* `outside_of_write` — what stands outside the directory is as it was, but for the directories above
  it that were missing.
-/

namespace NamingLint

/-- To put a directory under a name and to change what it holds is to put the changed one. -/
theorem Entries.modifyAt_put (f : Entries → Entries) (name : String) (inner es : Entries) :
    Entries.modifyAt f [name] (es.put name (.directory inner)) =
      es.put name (.directory (f inner)) := by
  unfold Entries.put
  split
  · rw [Entries.modifyAt, List.map_map]
    apply List.map_congr_left
    rintro ⟨m, node⟩ -
    by_cases hm : m = name
    · simp [hm, Entries.modifyAt]
    · cases node <;> simp [hm]
  · rename_i hany
    -- only the new entry has the name
    have habsent : ∀ e ∈ es, e.1 ≠ name := by
      intro e he hname
      exact hany (List.any_eq_true.mpr ⟨e, he, by simpa using hname⟩)
    rw [Entries.modifyAt, List.map_append]
    congr 1
    · conv_rhs => rw [← List.map_id es]
      apply List.map_congr_left
      rintro ⟨m, node⟩ he
      have hm : m ≠ name := habsent _ he
      cases node <;> simp [hm]
    · simp [Entries.modifyAt]

namespace Report

open Disk

/-! ## The report directory -/

/-- The disk without the report directory that was there. -/
def cleared (dir : Path) (d : Disk) : Disk :=
  if d.hasNode dir then ((removeTree dir).run d).2 else d

/-- The disks that differ in what the report directory holds, and in nothing else. -/
structure Slot (dir : Path) (place : List String) (disk : Entries → Disk) : Prop where
  leadsTo : ∀ es, (disk es).LeadsTo dir place
  descend : ∀ es, (disk es).entries.descend place = some es
  modify : ∀ f es, (disk es).modifyDirectory place f = disk (f es)

/-- However a report directory is filled, if nothing in it is locked, a reset gives the same disk,
with the directory empty; and the tree is proper if what the directory holds is. -/
structure Settled (dir : Path) (disk : Entries → Disk) : Prop where
  again : ∀ es, Entries.leftovers es = [] → (resetDirectory dir).run (disk es) = (.ok (), disk [])
  proper : ∀ es, Entries.IsProper es → Entries.IsProper (disk es).entries

section Slots

variable {c d e base : Disk} {dir : Path} {parent place : List String} {name : String}
  {disk : Entries → Disk}

/-- A directory at a free name is a slot. -/
theorem slot_of_freeAt (h : base.FreeAt dir parent name) :
    Slot dir (parent ++ [name]) fun es => base.withNode parent name (.directory es) := by
  refine ⟨h.leadsTo, fun es => ?_, fun f es => ?_⟩
  · exact Entries.descend_eq_some_iff.mpr (nodeAt_withNode h.alive _)
  · show Disk.mk _ _ = Disk.mk _ _
    congr 1
    show Entries.modifyAt f (parent ++ [name])
      (Entries.modifyAt (Entries.put name (.directory es)) parent base.entries) = _
    -- to change the new entry is to put the changed one
    rw [Entries.modifyAt_append, Entries.modifyAt_modifyAt]
    congr 1
    funext inner
    exact Entries.modifyAt_put f name es inner

/-- The root is a slot, if a path leads to it where it is empty. -/
theorem slot_of_root (h : c.LeadsTo dir []) (hempty : c.entries = []) :
    Slot dir [] fun es => ⟨es, c.cwd⟩ := by
  refine ⟨fun es => ?_, fun es => rfl, fun f es => rfl⟩
  refine h.mono ?_ rfl
  rw [hempty]
  exact (Entries.grows_nil es).keepsWays

/-- A directory that is removed and made anew is the same empty directory: its name was free and is
free again. -/
theorem settled_of_freeAt (h : base.FreeAt dir parent name) (hbase : Entries.IsProper base.entries) :
    Settled dir fun es => base.withNode parent name (.directory es) := by
  have hentry : ∀ es, (base.withNode parent name (.directory es)).EntryAt dir parent name :=
    fun es => h.toEntryAt.mono (h.grows _).keepsWays rfl
  have hnode : ∀ es, (base.withNode parent name (.directory es)).entries.nodeAt (parent ++ [name]) =
      some (.directory es) := fun es => nodeAt_withNode h.alive _
  -- without the directory, emptied and removed, the disk is the one it was made on
  have hback : (base.withNode parent name (.directory [])).modifyDirectory parent
      (Entries.remove name) = base := by
    show Disk.mk _ _ = base
    congr 1
    show Entries.modifyAt (Entries.remove name) parent
      (Entries.modifyAt (Entries.put name (.directory [])) parent base.entries) = _
    rw [Entries.modifyAt_modifyAt]
    refine Entries.modifyAt_eq_self hbase fun inner hinner => Entries.remove_put ?_ _
    have hfree := h.free
    rwa [← Entries.bind_lookup_descend, hinner] at hfree
  refine ⟨fun es hleft => ?_, fun es hes => h.isProper_withNode hbase hes⟩
  have hresolve : ∀ followLast, (base.withNode parent name (.directory es)).resolve followLast dir =
      .ok (.existing (parent ++ [name]) (.directory es)) := fun followLast =>
    resolve_eq_ok.mpr ⟨_, route_eq_ok h.accepted,
      (hentry es).resolveRoute_directory (hnode es) followLast _⟩
  have hremove : (removeTree dir).run (base.withNode parent name (.directory es)) =
      (.ok (), base) := by
    unfold removeTree
    rw [run_bind, run_place, hresolve false]
    dsimp only
    rw [run_bind, run_modify, hleft]
    dsimp only
    rw [(slot_of_freeAt h).modify, if_pos List.isEmpty_nil, run_tryCatch,
      (hentry []).run_removeDirectory (hnode []), hback]
  unfold resetDirectory
  rw [run_bind, run_get]
  dsimp only
  rw [hasNode_iff.mpr ⟨_, _, hresolve true⟩, if_pos rfl, run_bind, hremove]
  dsimp only
  unfold makeDirectories
  rw [if_neg h.accepted.text_ne, run_ensureDirectoryAfter_of_free _ h]

/-- The root is emptied, and stays. -/
theorem settled_of_root (htext : dir.text ≠ "") (h : c.LeadsTo dir []) (hempty : c.entries = [])
    (hremove : (removeDirectory dir).run c = (.ok (), c)) :
    Settled dir fun es => ⟨es, c.cwd⟩ := by
  refine ⟨fun es hleft => ?_, fun es hes => hes⟩
  have hc : (⟨[], c.cwd⟩ : Disk) = c := by rw [← hempty]
  have hdirectory : c.hasDirectory dir = true :=
    hasDirectory_of_directory? (directory?_eq_some_iff.mpr ⟨[], h, by rw [hempty]; rfl⟩)
  -- the path passes nothing that the root holds, so it leads there however the root is filled
  have hresolve : ∀ followLast, (⟨es, c.cwd⟩ : Disk).resolve followLast dir =
      .ok (.existing [] (.directory es)) := by
    intro followLast
    obtain ⟨n, -, htrail⟩ := h.trail
    rw [leads_steps_iff, hempty] at htrail
    refine resolve_eq_ok.mpr ⟨_, route_eq_ok h.accepted, ?_⟩
    have hstart : (⟨es, c.cwd⟩ : Disk).startOf dir = c.startOf dir := rfl
    unfold resolveRoute
    rw [startOf_eq, hstart, htrail.followLinks_of_empty, followLinks_nil]
    rfl
  unfold resetDirectory
  rw [run_bind, run_get]
  dsimp only
  rw [hasNode_iff.mpr ⟨_, _, hresolve true⟩, if_pos rfl, run_bind]
  unfold removeTree
  rw [run_bind, run_place, hresolve false]
  dsimp only
  rw [run_bind, run_modify, hleft]
  dsimp only
  rw [if_pos List.isEmpty_nil,
    show (⟨es, c.cwd⟩ : Disk).modifyDirectory [] (fun _ => []) = ⟨[], c.cwd⟩ from rfl, hc,
    run_tryCatch, hremove]
  dsimp only
  unfold makeDirectories
  rw [if_neg htext, run_ensureDirectoryAfter_of_directory _ hdirectory]

/-- What fills a slot changes nothing outside of it. -/
theorem Slot.agreeOff (h : Slot dir place disk) (es es' : Entries) :
    Entries.AgreeOff place (disk es).entries (disk es').entries := by
  have hfill : disk es' = (disk es).modifyDirectory place fun _ => es' :=
    (h.modify (fun _ => es') es).symm
  rw [hfill]
  exact Entries.agreeOff_modifyAt _ (List.prefix_refl place) _

/-- What fills a slot does not change where the program stands. -/
theorem Slot.cwd (h : Slot dir place disk) (es es' : Entries) :
    (disk es').cwd = (disk es).cwd := by
  have hfill : disk es' = (disk es).modifyDirectory place fun _ => es' :=
    (h.modify (fun _ => es') es).symm
  rw [hfill]
  rfl

/-- Removing the report directory leaves a cleared disk behind: the one before it if nothing was
there. -/
theorem cleared_cases (h : ((resetDirectory dir).run d).1 = .ok ()) :
    ((cleared dir d = d ∧ d.hasDirectory dir = false) ∨
        ∃ old, Removed d (cleared dir d) dir old) ∧
      (resetDirectory dir).run d = (makeDirectories dir).run (cleared dir d) := by
  unfold resetDirectory at h ⊢
  unfold cleared
  rw [run_bind, run_get] at h ⊢
  dsimp only at h ⊢
  cases hnode : d.hasNode dir with
  | false =>
    exact ⟨.inl ⟨rfl, hasDirectory_eq_false_of_hasNode hnode⟩, rfl⟩
  | true =>
    rw [hnode] at h
    rw [if_pos rfl] at h ⊢
    rw [if_pos rfl]
    rw [run_bind] at h ⊢
    -- what is there is removed first, or the reset fails
    rcases hrun : (removeTree dir).run d with ⟨r, c⟩
    rw [hrun] at h
    cases r with
    | error err => simp at h
    | ok u => exact ⟨.inr (removed_of_removeTree hrun), rfl⟩

/-- After a reset the path leads to an empty directory; what else is new is above it. -/
theorem slot_of_resetDirectory (hinside : (cleared dir d).StepsBackInside dir)
    (htext : dir.text ≠ "") (h : (resetDirectory dir).run d = (.ok (), e)) :
    ∃ place disk, Slot dir place disk ∧ e = disk [] ∧ (cleared dir d).Adds e place ∧
      (Entries.IsProper d.entries → Settled dir disk) := by
  have hok : ((resetDirectory dir).run d).1 = .ok () := by rw [h]
  obtain ⟨hcases, hrun⟩ := cleared_cases hok
  rw [hrun] at h
  have hgone : (cleared dir d).hasDirectory dir = false ∨ (cleared dir d).entries = [] ∧
      (cleared dir d).LeadsTo dir [] ∧
      (removeDirectory dir).run (cleared dir d) = (.ok (), cleared dir d) := by
    rcases hcases with ⟨hsame, hnone⟩ | ⟨old, hremoved⟩
    · rw [hsame]
      exact .inl hnone
    · exact hremoved.gone
  have hproper : Entries.IsProper d.entries → Entries.IsProper (cleared dir d).entries := by
    rcases hcases with ⟨hsame, -⟩ | ⟨old, hremoved⟩
    · rw [hsame]
      exact id
    · exact hremoved.proper
  rcases hgone with hnone | ⟨hempty, hleads, hremove⟩
  · -- the directory is made anew, with those above it that are missing
    obtain ⟨base, parent, name, hfree, hadds, rfl⟩ :=
      makes_of_makeDirectories hinside htext hnone h
    exact ⟨parent ++ [name], _, slot_of_freeAt hfree, rfl, hadds.withNode hfree,
      fun hd => settled_of_freeAt hfree (hadds.proper (hproper hd))⟩
  · -- the root cannot be removed, and is there already
    have hdirectory : (cleared dir d).hasDirectory dir = true :=
      hasDirectory_of_directory? (directory?_eq_some_iff.mpr ⟨[], hleads, by rw [hempty]; rfl⟩)
    unfold makeDirectories at h
    rw [if_neg htext, run_ensureDirectoryAfter_of_directory _ hdirectory] at h
    cases h
    refine ⟨[], _, slot_of_root hleads hempty, ?_, .refl [],
      fun _ => settled_of_root htext hleads hempty hremove⟩
    rw [← hempty]

end Slots

/-! ## The files of a report -/

/-- A file of a report as an entry of a directory. -/
def Artifact.entry (a : Artifact) : String × Node :=
  (a.name, .file (.text a.text))

/-- What a report directory holds. -/
def entries (r : RunResult) (external : Option Json.Value) : Entries :=
  (artifacts r external).map Artifact.entry

section Files

variable {dir : Path} {place : List String} {disk : Entries → Disk} {r : RunResult}
  {external : Option Json.Value}

/-- A change made with a description fails with the described error, on the same disk. -/
theorem run_onDisk {α : Type} (describe : DiskError → Error) (change : Change α) (d : Disk) :
    (onDisk describe change).run d =
      ((change.run d).1.mapError describe, (change.run d).2) := by
  unfold onDisk ExceptT.run ExceptT.mk
  simp only [bind, StateT.bind]
  rcases change d with ⟨r, d'⟩
  cases r <;> rfl

/-- A file behind a path is an entry of the directory that the path leads to, unless its own path is
too long. -/
theorem entryAt_join {d : Disk} {name : String} (h : d.LeadsTo dir place)
    (hname : IsEntryName name) (hshort : isTooLong (dir.join ⟨name⟩) = false) :
    d.EntryAt (dir.join ⟨name⟩) place name := by
  have hroute := route_join (route_eq_ok h.accepted) hname hshort
  obtain ⟨haccepted, hjoin⟩ := isAccepted_of_route hroute
  obtain ⟨n, hn, htrail⟩ := h.trail
  refine ⟨haccepted, isNameStep_of_isEntryName hname, dir.route.steps, n, hn, ?_, ?_⟩
  · rw [← hjoin]
  · -- both paths start at the same place
    have hstart : d.startOf (dir.join ⟨name⟩) = d.startOf dir := by
      rw [← startOf_eq, ← startOf_eq, ← hjoin]
    rw [hstart]
    exact leads_steps_iff.mp htrail

/-- A file is written into the report directory if its name is free there, unless its path is too
long. -/
theorem run_writeArtifact (h : Slot dir place disk) {a : Artifact} (hname : IsEntryName a.name)
    (hshort : isTooLong (dir.join ⟨a.name⟩) = false) {es : Entries}
    (hfree : es.lookup a.name = none) :
    (writeArtifact dir a).run (disk es) = (.ok (dir.join ⟨a.name⟩), disk (es ++ [a.entry])) := by
  have hentry := entryAt_join (h.leadsTo es) hname hshort
  -- nothing has the name yet, and the directory is there
  have hplace : (disk es).FreeAt (dir.join ⟨a.name⟩) place a.name := by
    refine { hentry with alive := ?_, free := ?_ }
    · rw [h.descend es]
      rfl
    · rw [← Entries.bind_lookup_descend, h.descend es]
      exact hfree
  have hresolve : (disk es).resolve true (dir.join ⟨a.name⟩) = .ok (.vacant place a.name) :=
    resolve_eq_ok.mpr ⟨_, route_eq_ok hentry.accepted, hplace.resolveRoute true _⟩
  have hput : (disk es).modifyDirectory place (Entries.put a.name (.file (.text a.text))) =
      disk (es ++ [a.entry]) := by
    rw [h.modify, Entries.put_of_lookup hfree]
    rfl
  unfold writeArtifact
  rw [run_bind, run_onDisk]
  unfold Disk.write writeContent
  rw [run_bind, run_place, hresolve]
  dsimp only
  unfold putNode
  rw [run_modify, hput]
  rfl

/-- A file whose path is too long is not written. -/
theorem run_writeArtifact_of_tooLong {a : Artifact} {d : Disk}
    (hlong : isTooLong (dir.join ⟨a.name⟩) = true) :
    ∃ e, (writeArtifact dir a).run d = (.error e, d) := by
  obtain ⟨e, he, -⟩ := route_of_isTooLong hlong
  have hresolve : d.resolve true (dir.join ⟨a.name⟩) = .error e := by
    unfold resolve
    rw [he]
    rfl
  refine ⟨.file (dir.join ⟨a.name⟩) e, ?_⟩
  unfold writeArtifact
  rw [run_bind, run_onDisk]
  unfold Disk.write writeContent
  rw [run_bind, run_place, hresolve]
  rfl

/-- The names of files that are still to be written are free once another one is. -/
theorem lookup_append_entry {a : Artifact} {as : List Artifact} {es : Entries}
    (hnodup : a.name ∉ as.map Artifact.name) (hfree : ∀ b ∈ as, es.lookup b.name = none) :
    ∀ b ∈ as, (es ++ [a.entry]).lookup b.name = none := by
  intro b hb
  have hne : b.name ≠ a.name := fun hba => hnodup (hba ▸ List.mem_map_of_mem hb)
  rw [List.lookup_append, hfree b hb]
  exact (Entries.lookup_entry b.name a.name _ []).trans (if_neg hne)

/-- The files of a report are written into its directory one after the other, up to the first whose
path is too long. -/
theorem writeArtifacts_cases (h : Slot dir place disk) {as : List Artifact}
    (hnames : ∀ a ∈ as, IsEntryName a.name) (hnodup : (as.map Artifact.name).Nodup) {es : Entries}
    (hfree : ∀ a ∈ as, es.lookup a.name = none) :
    ((∀ a ∈ as, isTooLong (dir.join ⟨a.name⟩) = false) ∧
      (as.mapM (writeArtifact dir)).run (disk es) =
        (.ok (as.map fun a => dir.join ⟨a.name⟩), disk (es ++ as.map Artifact.entry))) ∨
    (∃ a ∈ as, isTooLong (dir.join ⟨a.name⟩) = true) ∧
      ∃ e fs, (as.mapM (writeArtifact dir)).run (disk es) = (.error e, disk fs) := by
  -- on the artifacts left; those written before are in `es`
  induction as generalizing es with
  | nil =>
    refine .inl ⟨by simp, ?_⟩
    simp only [List.map_nil, List.append_nil]
    rfl
  | cons a as ih =>
    obtain ⟨hname, hnames⟩ := List.forall_mem_cons.mp hnames
    obtain ⟨hfirst, hfree⟩ := List.forall_mem_cons.mp hfree
    rw [List.map_cons, List.nodup_cons] at hnodup
    rw [List.mapM_cons, run_bind]
    cases hlong : isTooLong (dir.join ⟨a.name⟩) with
    | true =>
      obtain ⟨e, he⟩ := run_writeArtifact_of_tooLong (d := disk es) hlong
      rw [he]
      exact .inr ⟨⟨a, List.mem_cons_self, hlong⟩, e, es, rfl⟩
    | false =>
      rw [run_writeArtifact h hname hlong hfirst]
      dsimp only
      rw [run_bind]
      rcases ih hnames hnodup.2 (lookup_append_entry hnodup.1 hfree) with ⟨hshort, hrun⟩ |
        ⟨⟨b, hb, hlong⟩, e, fs, hrun⟩
      · rw [hrun]
        refine .inl ⟨List.forall_mem_cons.mpr ⟨hlong, hshort⟩, ?_⟩
        dsimp only
        rw [run_pure, List.append_assoc]
        rfl
      · rw [hrun]
        exact .inr ⟨⟨b, List.mem_cons_of_mem a hb, hlong⟩, e, fs, rfl⟩

/-- The names of the files that a report may have. -/
def fileNames : List String :=
  ["casing-report.json", "construct-report.json", "summary.json", "lint-report.json"]

/-- Artifacts have the names of report files. -/
theorem name_mem_fileNames {r : RunResult} {external : Option Json.Value} {a : Artifact}
    (h : a ∈ artifacts r external) : a.name ∈ fileNames := by
  unfold artifacts at h
  unfold fileNames
  rcases List.mem_append.mp h with h | h
  · simp only [List.mem_cons, List.not_mem_nil, or_false] at h
    rcases h with rfl | rfl | rfl <;> simp
  · obtain ⟨v, -, rfl⟩ := Option.map_eq_some_iff.mp (Option.mem_toList.mp h)
    simp

theorem isEntryName_of_mem_artifacts {r : RunResult} {external : Option Json.Value} {a : Artifact}
    (h : a ∈ artifacts r external) : IsEntryName a.name := by
  have hnames : ∀ n ∈ fileNames, IsEntryName n := by decide
  exact hnames a.name (name_mem_fileNames h)

theorem nodup_artifacts (r : RunResult) (external : Option Json.Value) :
    ((artifacts r external).map Artifact.name).Nodup := by
  unfold artifacts
  cases external <;> simp

/-- The files of a report have names of their own. -/
theorem isProper_entries (r : RunResult) (external : Option Json.Value) :
    Entries.IsProper (entries r external) := by
  -- files with different names make a proper directory
  have hfiles : ∀ as : List Artifact, (∀ a ∈ as, IsEntryName a.name) →
      (as.map Artifact.name).Nodup → Entries.IsProper (as.map Artifact.entry) := by
    intro as
    induction as with
    | nil => exact fun _ _ => trivial
    | cons a as ih =>
      intro hnames hnodup
      rw [List.map_cons, List.nodup_cons] at hnodup
      refine ⟨hnames a List.mem_cons_self, ?_, trivial,
        ih (fun b hb => hnames b (List.mem_cons_of_mem a hb)) hnodup.2⟩
      intro e he heq
      obtain ⟨b, hb, rfl⟩ := List.mem_map.mp he
      exact hnodup.1 (heq ▸ List.mem_map_of_mem hb)
  exact hfiles _ (fun a => isEntryName_of_mem_artifacts) (nodup_artifacts r external)

/-- Each artifact is found under its name, with its text. -/
theorem lookup_entries {a : Artifact} (h : a ∈ artifacts r external) :
    (entries r external).lookup a.name = some (.file (.text a.text)) :=
  (Entries.lookup_eq_some_iff (isProper_entries r external)).mpr (List.mem_map_of_mem h)

end Files

/-! ## Whole reports -/

variable {d after : Disk} {dir : Path} {r : RunResult} {external : Option Json.Value}
  {paths : List Path}

/-- Once the report directory is reset, the files of the report are written into it, unless a path
is too long. -/
theorem write_cases_of_reset {place : List String} {disk : Entries → Disk}
    (hslot : Slot dir place disk) (hreset : (resetDirectory dir).run d = (.ok (), disk []))
    (r : RunResult) (external : Option Json.Value) :
    ((∀ a ∈ artifacts r external, isTooLong (dir.join ⟨a.name⟩) = false) ∧
      (write dir r external).run d = (.ok ((artifacts r external).map fun a => dir.join ⟨a.name⟩),
        disk (entries r external))) ∨
    (∃ a ∈ artifacts r external, isTooLong (dir.join ⟨a.name⟩) = true) ∧
      ∃ e fs, (write dir r external).run d = (.error e, disk fs) := by
  unfold write
  rw [run_bind, run_onDisk, hreset]
  exact writeArtifacts_cases hslot (fun a => isEntryName_of_mem_artifacts)
    (nodup_artifacts r external) fun a _ => rfl

/-- Without a reset nothing is written. -/
theorem run_write_of_not_reset {e : DiskError} {after : Disk}
    (hreset : (resetDirectory dir).run d = (.error e, after)) :
    (write dir r external).run d = (.error (.directory dir e), after) := by
  unfold write
  rw [run_bind, run_onDisk, hreset]
  rfl

/-- A report that was written: the path leads to a directory that holds the files of the report. -/
theorem slot_of_write (hinside : (cleared dir d).StepsBackInside dir) (htext : dir.text ≠ "")
    (h : (write dir r external).run d = (.ok paths, after)) :
    ∃ place disk, Slot dir place disk ∧ (resetDirectory dir).run d = (.ok (), disk []) ∧
      (cleared dir d).Adds (disk []) place ∧ (Entries.IsProper d.entries → Settled dir disk) ∧
      after = disk (entries r external) ∧
      (∀ a ∈ artifacts r external, isTooLong (dir.join ⟨a.name⟩) = false) ∧
      paths = (artifacts r external).map fun a => dir.join ⟨a.name⟩ := by
  -- a report that is written was written into a directory that was reset
  rcases hreset : (resetDirectory dir).run d with ⟨result, e⟩
  cases result with
  | error err =>
    rw [run_write_of_not_reset hreset] at h
    cases h
  | ok u =>
    obtain ⟨place, disk, hslot, rfl, hadds, hsettled⟩ :=
      slot_of_resetDirectory hinside htext hreset
    rcases write_cases_of_reset hslot hreset r external with ⟨hshort, hrun⟩ | ⟨-, err, fs, hrun⟩
    · rw [hrun] at h
      cases h
      exact ⟨place, disk, hslot, rfl, hadds, hsettled, rfl, hshort, rfl⟩
    · rw [hrun] at h
      cases h

/-- Writing a report leaves the program where it stands. -/
theorem cwd_of_write {place : List String} {disk : Entries → Disk} (hslot : Slot dir place disk)
    (hreset : (resetDirectory dir).run d = (.ok (), disk []))
    (hadds : (cleared dir d).Adds (disk []) place) (es : Entries) : (disk es).cwd = d.cwd := by
  have hok : ((resetDirectory dir).run d).1 = .ok () := by rw [hreset]
  rw [hslot.cwd [] es, ← hadds.cwd]
  rcases (cleared_cases hok).1 with ⟨hsame, -⟩ | ⟨old, hremoved⟩
  · rw [hsame]
  · exact hremoved.cwd

/-- What stands outside the directory is as it was, but for the directories above it that were
missing. Outside is what is neither below the directory nor below what the path led to before. -/
theorem outside_of_write {place : List String} {disk : Entries → Disk} (hslot : Slot dir place disk)
    (hreset : (resetDirectory dir).run d = (.ok (), disk []))
    (hadds : (cleared dir d).Adds (disk []) place) (es : Entries) {ms : List String}
    (hplace : ¬place <+: ms)
    (hold : ∀ old node, d.resolve false dir = .ok (.existing old node) → ¬old <+: ms) :
    (disk es).entries.markAt ms = d.entries.markAt ms ∨
      (d.entries.markAt ms = none ∧ (disk es).entries.markAt ms = some .directory ∧
        ms <+: place) := by
  have hok : ((resetDirectory dir).run d).1 = .ok () := by rw [hreset]
  have hcleared : (cleared dir d).entries.markAt ms = d.entries.markAt ms := by
    rcases (cleared_cases hok).1 with ⟨hsame, -⟩ | ⟨old, hremoved⟩
    · rw [hsame]
    · -- what was removed stood where the path led to
      obtain ⟨node, hfound⟩ := hremoved.found
      exact hremoved.agreeOff ms (hold old node hfound)
  rw [hslot.agreeOff [] es ms hplace, ← hcleared]
  exact hadds.only ms

end Report

end NamingLint
