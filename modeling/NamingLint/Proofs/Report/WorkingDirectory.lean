import Mathlib.Data.List.Induction
import NamingLint.Proofs.Report.Replace

/-!
# NamingLint — a report in the working directory

The report directory of a run is an entry of the working directory. Its path names every directory on
the way, so it leads to that entry before, between and after the changes that a report makes, and
nothing but that entry is touched.

* `Disk.ChangesOnly` — a disk that differs from another one at and below some names only.
* `Disk.Pins` — a path that leads to an entry of a directory however the disk changes elsewhere.

Main results:

* `resetDirectory_cases` — a reset leaves an empty directory at the entry, or fails and changes at
  most what is below the entry.
* `changesOnly_write` — and so does a whole report, whether it is written or not.
-/

namespace NamingLint

/-- The directory that holds the changed place is still there. -/
theorem Entries.AgreeOff.alive {parent : List String} {name : String} {root root' : Entries}
    (h : AgreeOff (parent ++ [name]) root root') (halive : (root.descend parent).isSome) :
    (root'.descend parent).isSome := by
  obtain ⟨es, hes⟩ := Option.isSome_iff_exists.mp halive
  -- it is above the place that changed
  have houtside : ¬parent ++ [name] <+: parent := by
    intro hprefix
    have hlength := hprefix.length_le
    rw [List.length_append, List.length_singleton] at hlength
    omega
  have hmark := (h parent houtside).trans (markAt_eq_directory_iff.mpr ⟨es, hes⟩)
  exact Option.isSome_iff_exists.mpr (markAt_eq_directory_iff.mp hmark)

namespace Disk

/-- The second disk is the first one but for what stands at and below some names. -/
structure ChangesOnly (d d' : Disk) (place : List String) : Prop where
  cwd : d'.cwd = d.cwd
  agreeOff : Entries.AgreeOff place d.entries d'.entries

theorem ChangesOnly.refl (d : Disk) (place : List String) : d.ChangesOnly d place :=
  ⟨rfl, .refl place d.entries⟩

theorem ChangesOnly.trans {d d' d'' : Disk} {place : List String} (h : d.ChangesOnly d' place)
    (h' : d'.ChangesOnly d'' place) : d.ChangesOnly d'' place :=
  ⟨h'.cwd.trans h.cwd, h.agreeOff.trans h'.agreeOff⟩

/-- A directory that cannot be made for another reason than a missing one above it is not made. -/
theorem run_makeDirectories_of_not_free {d : Disk} {p : Path} {e : DiskError} (htext : p.text ≠ "")
    (hnone : d.hasDirectory p = false) (hfree : (freePlace p).run d = (.error e, d))
    (he : e ≠ .notFound) : (makeDirectories p).run d = (.error e, d) := by
  have hensure : (ensureDirectory p).run d = (.error e, d) := by
    unfold ensureDirectory makeDirectory
    rw [run_tryCatch, run_bind, hfree]
    dsimp only
    rw [run_bind, run_get]
    dsimp only
    rw [hnone]
    rfl
  unfold makeDirectories ensureDirectoryAfter
  rw [if_neg htext, run_tryCatch, hensure]
  dsimp only
  -- only a missing directory above is made up for
  rw [if_neg he]
  rfl

/-! ## Paths that stay -/

/-- Where the working directory is `cwd`, a path without a slash at its end leads to the entry `name`
of the directory `parent`, as long as there is that directory. -/
structure Pins (cwd : List String) (p : Path) (parent : List String) (name : String) : Prop where
  bare : p.route.endsInSlash = false
  entryAt : ∀ d : Disk, d.cwd = cwd → (d.entries.descend parent).isSome → d.EntryAt p parent name

/-- The names of directories one in the other lead to the last one. -/
theorem leads_of_descend {root inner : Entries} {ns : List String} (hns : ∀ n ∈ ns, IsNameStep n)
    (h : root.descend ns = some inner) : Leads root 0 [] ns ns := by
  induction ns using List.reverseRecOn generalizing inner with
  | nil => exact .nil []
  | append_singleton ns n ih =>
    have hnode := Entries.descend_eq_some_iff.mp h
    obtain ⟨es, hes, -⟩ := Entries.exists_descend_of_nodeAt hnode
    have habove := ih (fun m hm => hns m (List.mem_append_left [n] hm)) hes
    exact habove.append (.enter (hns n (by simp)) hnode (.nil _))

/-- The path of a directory leads to it. -/
theorem leadsTo_pathOf {d : Disk} {names : List String} (hnames : ∀ n ∈ names, IsEntryName n)
    (hshort : isTooLong (pathOf names) = false) (halive : (d.entries.descend names).isSome) :
    d.LeadsTo (pathOf names) names := by
  obtain ⟨w, hroute⟩ := route_pathOf hnames hshort
  obtain ⟨haccepted, hr⟩ := isAccepted_of_route hroute
  obtain ⟨es, hes⟩ := Option.isSome_iff_exists.mp halive
  refine ⟨haccepted, 0, Nat.zero_le _, leads_steps_iff.mpr ?_⟩
  rw [← startOf_eq, ← hr]
  exact leads_of_descend (fun n hn => isNameStep_of_isEntryName (hnames n hn)) hes

theorem text_pathOf_ne_nil (names : List String) : (pathOf names).text.toList ≠ [] := by
  rw [pathOf, String.toList_append]
  exact List.cons_ne_nil _ _

/-- A name in the working directory stays, if its path is not too long. -/
theorem pins_join_pathOf {cwd : List String} {name : String} (hcwd : ∀ n ∈ cwd, IsEntryName n)
    (hname : IsEntryName name) (hshort : isTooLong ((pathOf cwd).join ⟨name⟩) = false) :
    Pins cwd ((pathOf cwd).join ⟨name⟩) cwd name := by
  -- a path that is short enough has a parent that is
  have hparent : isTooLong (pathOf cwd) = false := by
    rw [Bool.eq_false_iff]
    intro hlong
    rw [isTooLong_join (text_pathOf_ne_nil cwd) hname hlong] at hshort
    cases hshort
  obtain ⟨w, hroute⟩ := route_pathOf hcwd hparent
  have hjoin := (isAccepted_of_route (route_join hroute hname hshort)).2
  refine ⟨by rw [← hjoin], fun d _ halive => ?_⟩
  exact Report.entryAt_join (leadsTo_pathOf hcwd hparent halive) hname hshort

section Pinned

variable {d : Disk} {p : Path} {parent : List String} {name : String}
  (h : Pins d.cwd p parent name) (halive : (d.entries.descend parent).isSome)

include h halive

/-- A slash at its end makes no difference. -/
theorem Pins.resolve_eq (followLast : Bool) :
    d.resolve followLast p =
      d.resolveRoute followLast { p.route with endsInSlash := false } := by
  unfold resolve
  rw [route_eq_ok (h.entryAt d rfl halive).accepted, ← h.bare]
  rfl

/-- An entry that is removed leaves a free name. -/
theorem Pins.freeAt_of_removed :
    (d.modifyDirectory parent (Entries.remove name)).FreeAt p parent name := by
  have halive' := (Entries.agreeOff_remove parent name d.entries).alive halive
  have hentry := h.entryAt (d.modifyDirectory parent (Entries.remove name)) rfl halive'
  exact { hentry with alive := halive', free := Entries.nodeAt_remove parent name d.entries }

/-- Removing what stands at the entry: a link goes, a file stays, and a directory goes unless there
is something locked in it. -/
theorem Pins.removeTree_cases {node : Node}
    (hnode : d.entries.nodeAt (parent ++ [name]) = some node) :
    (∃ base : Disk, base.FreeAt p parent name ∧ d.ChangesOnly base (parent ++ [name]) ∧
      (removeTree p).run d = (.ok (), base)) ∨
    ∃ e after, (removeTree p).run d = (.error e, after) ∧
      d.ChangesOnly after (parent ++ [name]) := by
  have hentry := h.entryAt d rfl halive
  unfold removeTree
  rw [run_bind, run_place, h.resolve_eq halive]
  cases node with
  | file c =>
    rw [hentry.resolveRoute_file hnode]
    exact .inr ⟨.notDirectory, d, rfl, .refl d _⟩
  | locked es =>
    rw [hentry.resolveRoute_locked hnode]
    exact .inr ⟨.accessDenied, d, rfl, .refl d _⟩
  | link target =>
    rw [hentry.resolveRoute_link hnode]
    exact .inl ⟨_, h.freeAt_of_removed halive,
      ⟨rfl, Entries.agreeOff_remove parent name _⟩, run_removeNode parent name d⟩
  | directory es =>
    rw [hentry.resolveRoute_directory hnode]
    dsimp only
    rw [run_bind, run_modify]
    dsimp only
    split
    · -- the directory is emptied first; the path still leads to it
      rename_i hleft
      rw [List.isEmpty_iff.mp hleft]
      have hoff : Entries.AgreeOff (parent ++ [name]) d.entries
          (d.fill (parent ++ [name]) []).entries :=
        Entries.agreeOff_modifyAt _ (List.prefix_refl _) _
      have hempty : (d.fill (parent ++ [name]) []).entries.nodeAt (parent ++ [name]) =
          some (.directory []) := by
        show (Entries.modifyAt _ _ _).nodeAt _ = _
        rw [Entries.nodeAt_modifyAt, hnode]
        rfl
      have hpins : Pins (d.fill (parent ++ [name]) []).cwd p parent name := h
      have halive' := hoff.alive halive
      refine .inl ⟨_, hpins.freeAt_of_removed halive',
        ⟨rfl, hoff.trans (Entries.agreeOff_remove parent name _)⟩, ?_⟩
      rw [run_tryCatch, show d.modifyDirectory (parent ++ [name]) (fun _ => []) =
        d.fill (parent ++ [name]) [] from rfl,
        (hpins.entryAt _ rfl halive').run_removeDirectory hempty]
    · exact .inr ⟨.accessDenied, _, rfl, rfl,
        Entries.agreeOff_modifyAt _ (List.prefix_refl _) _⟩

/-- A link that leads nowhere is in the way of a directory. -/
theorem Pins.run_makeDirectories_of_link {target : String}
    (hnode : d.entries.nodeAt (parent ++ [name]) = some (.link target))
    (hnone : d.hasDirectory p = false) :
    (makeDirectories p).run d = (.error .alreadyExists, d) := by
  have hentry := h.entryAt d rfl halive
  -- the name is taken by the link itself, though it leads nowhere
  have hfree : (freePlace p).run d = (.error .alreadyExists, d) := by
    unfold freePlace
    rw [run_bind, run_get, route_eq_ok hentry.accepted]
    dsimp only [Except.bind]
    rw [hentry.resolveRoute_link hnode]
    rfl
  exact run_makeDirectories_of_not_free hentry.accepted.text_ne hnone hfree (by simp)

end Pinned

end Disk

namespace Report

open Disk

section Entry

variable {d : Disk} {dir : Path} {parent : List String} {name : String}
  (h : Pins d.cwd dir parent name) (halive : (d.entries.descend parent).isSome)

include h halive

/-- A reset leaves an empty directory at the entry, or fails and changes at most what is below the
entry. -/
theorem resetDirectory_cases :
    (∃ base : Disk, base.FreeAt dir parent name ∧ d.ChangesOnly base (parent ++ [name]) ∧
      (resetDirectory dir).run d = (.ok (), base.withNode parent name (.directory []))) ∨
    ∃ e after, (resetDirectory dir).run d = (.error e, after) ∧
      d.ChangesOnly after (parent ++ [name]) := by
  have hentry := h.entryAt d rfl halive
  have hmake : ∀ base : Disk, base.FreeAt dir parent name →
      (makeDirectories dir).run base = (.ok (), base.withNode parent name (.directory [])) := by
    intro base hfree
    unfold makeDirectories
    rw [if_neg hentry.accepted.text_ne]
    exact run_ensureDirectoryAfter_of_free _ hfree
  unfold resetDirectory
  rw [run_bind, run_get]
  dsimp only
  cases hnode : d.entries.nodeAt (parent ++ [name]) with
  | none =>
    have hfree : d.FreeAt dir parent name := { hentry with alive := halive, free := hnode }
    rw [hfree.hasNode_eq_false]
    exact .inl ⟨d, hfree, .refl d _, hmake d hfree⟩
  | some node =>
    cases hhas : d.hasNode dir with
    | true =>
      rw [if_pos rfl, run_bind]
      rcases h.removeTree_cases halive hnode with ⟨base, hfree, hchanges, hrun⟩ |
        ⟨e, after, hrun, hchanges⟩
      · rw [hrun]
        exact .inl ⟨base, hfree, hchanges, hmake base hfree⟩
      · rw [hrun]
        exact .inr ⟨e, after, rfl, hchanges⟩
    | false =>
      -- only a link that leads nowhere is there without being found
      have hfound : ∀ names found, d.resolveRoute true { dir.route with endsInSlash := false } ≠
          .ok (.existing names found) := by
        intro names found hresolve
        rw [← h.resolve_eq halive] at hresolve
        rw [hasNode_iff.mpr ⟨names, found, hresolve⟩] at hhas
        cases hhas
      cases node with
      | file c => exact absurd (hentry.resolveRoute_file hnode true) (hfound _ _)
      | locked es => exact absurd (hentry.resolveRoute_locked hnode true false) (hfound _ _)
      | directory es => exact absurd (hentry.resolveRoute_directory hnode true false) (hfound _ _)
      | link target =>
        exact .inr ⟨.alreadyExists, d, h.run_makeDirectories_of_link halive hnode
          (hasDirectory_eq_false_of_hasNode hhas), .refl d _⟩

/-- Whether it is written or not, a report changes at most the entry and what is below it. -/
theorem changesOnly_write (r : RunResult) (external : Option Json.Value) :
    d.ChangesOnly ((write dir r external).run d).2 (parent ++ [name]) := by
  rcases resetDirectory_cases h halive with ⟨base, hfree, hchanges, hrun⟩ |
    ⟨e, after, hrun, hchanges⟩
  · -- whatever is written into it, the directory is all that changes
    have hfilled : ∀ es, d.ChangesOnly (base.withNode parent name (.directory es))
        (parent ++ [name]) := fun es =>
      hchanges.trans ⟨rfl, Entries.agreeOff_put parent name _ _⟩
    rcases write_cases_of_reset (slot_of_freeAt hfree) hrun r external with ⟨-, hwrite⟩ |
      ⟨-, e, fs, hwrite⟩
    · rw [hwrite]
      exact hfilled _
    · rw [hwrite]
      exact hfilled fs
  · rw [run_write_of_not_reset hrun]
    exact hchanges

end Entry

/-- A report whose path is too long fails, and changes nothing. -/
theorem run_write_of_isTooLong {d : Disk} {dir : Path} (htext : dir.text ≠ "")
    (hlong : isTooLong dir = true) (r : RunResult) (external : Option Json.Value) :
    ∃ e, (write dir r external).run d = (.error e, d) := by
  obtain ⟨e, hroute, hfound⟩ := route_of_isTooLong hlong
  -- such a path is refused before anything is looked up
  have hnode : d.hasNode dir = false := by
    unfold hasNode Disk.node resolve
    rw [hroute]
    rfl
  have hfree : (freePlace dir).run d = (.error e, d) := by
    unfold freePlace
    rw [run_bind, run_get, hroute]
    rfl
  have hreset : (resetDirectory dir).run d = (.error e, d) := by
    unfold resetDirectory
    rw [run_bind, run_get]
    dsimp only
    rw [hnode]
    exact run_makeDirectories_of_not_free htext (hasDirectory_eq_false_of_hasNode hnode) hfree
      (hfound htext)
  exact ⟨.directory dir e, run_write_of_not_reset hreset⟩

end Report

end NamingLint
