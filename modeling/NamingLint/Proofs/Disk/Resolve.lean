import NamingLint.Disk.Walk
import NamingLint.Proofs.Path.Join

/-!
# NamingLint — directories behind a path

Where a path leads to a directory, names put behind it lead on into that directory, whatever links
the path passes on its way. So the directories below a directory are found by their paths, and a
walk from one of them starts with its entries. A locked directory is found, but nothing in it.

* `Entries.within` — the directory that names lead to, also past locked directories.
* `Disk.Refuses` — a path that leads to nothing, or to a locked directory.

Main results:

* `followLinks_append` — steps behind steps that lead to a directory are taken from there.
* `directory?_below`, `refuses_below` — directories behind a path, and those that are locked.
* `isSome_directory?_below_iff` — which directories behind a path can be listed.
* `node_last` — what it changes not to pass the last link.
* `walk_of_directory`, `Refuses.walk_eq_error` — the walk from a path that leads to a directory, or
  to nothing that can be looked into.
-/

namespace NamingLint

/-! ## Descending -/

namespace Entries

/-- Descending step by step. -/
theorem descend_append (ms ns : List String) (es : Entries) :
    es.descend (ms ++ ns) = (es.descend ms).bind fun inner => inner.descend ns := by
  induction ms generalizing es with
  | nil => rfl
  | cons m ms ih =>
    rw [List.cons_append, descend, descend]
    split
    · exact ih _
    · rfl

/-- The first name leads to a directory, and the others lead on from it. -/
theorem descend_cons_eq_some {n : String} {ns : List String} {es inner : Entries}
    (h : es.descend (n :: ns) = some inner) :
    ∃ middle : Entries, es.lookup n = some (.directory middle) ∧ middle.descend ns = some inner := by
  rw [descend] at h
  split at h
  · rename_i middle hlookup
    exact ⟨middle, hlookup, h⟩
  · simp at h

/-- One more directory further down. -/
theorem descend_concat {root es inner : Entries} {dir : List String} {n : String}
    (hdir : root.descend dir = some es) (hlookup : es.lookup n = some (.directory inner)) :
    root.descend (dir ++ [n]) = some inner := by
  rw [descend_append, hdir]
  simp [descend, hlookup]

end Entries

/-- The entries of a directory, locked or not. -/
def Node.entries? : Node → Option Entries
  | .directory es => some es
  | .locked es => some es
  | .file _ => none
  | .link _ => none

/-- The entries of the directory that a list of names leads to, without links, but also past
directories that are locked. -/
def Entries.within : List String → Entries → Option Entries
  | [], es => some es
  | n :: ns, es => ((es.lookup n).bind Node.entries?).bind (Entries.within ns)

namespace Disk

/-! ## Steps -/

section Steps

variable {root es inner : Entries} {names more : List String} {n : String}

variable {onLink : List String → List String → Bool → Except DiskError Place}

/-- Without steps one stays where one is. -/
theorem follow_nil_eq_ok {w : Bool} {dir : List String}
    (h : follow root true onLink w dir [] = .ok (.existing names (.directory es))) :
    root.descend dir = some es ∧ dir = names := by
  rw [follow] at h
  split at h
  · rename_i es' hes
    simp only [Except.ok.injEq, Place.existing.injEq, Node.directory.injEq] at h
    exact ⟨by rw [hes, h.2], h.1⟩
  · simp at h

/-- The directory that steps lead to is found by its names, if that holds of links. -/
theorem descend_of_follow
    (hlink : ∀ dir steps w, onLink dir steps w = .ok (.existing names (.directory es)) →
      root.descend names = some es)
    {w : Bool} {dir steps : List String}
    (h : follow root true onLink w dir steps = .ok (.existing names (.directory es))) :
    root.descend names = some es := by
  -- by the branches of a step: a directory is returned behind the last one, or behind a link
  induction steps generalizing dir with
  | nil =>
    obtain ⟨hdescend, rfl⟩ := follow_nil_eq_ok h
    exact hdescend
  | cons step steps ih =>
    rw [follow] at h
    split at h
    · exact ih h
    · split at h
      · exact ih h
      · split at h
        · simp at h
        · split at h
          · split at h <;> simp at h
          · exact ih h
          · split at h <;> simp at h
          · split at h <;> simp at h
          · split at h
            · simp at h
            · exact hlink _ _ _ h

/-- Where steps lead to a directory, its names do. -/
theorem descend_of_followLinks {links : Nat} {w : Bool} {dir steps : List String}
    (h : followLinks root true links dir steps w = .ok (.existing names (.directory es))) :
    root.descend names = some es := by
  -- on the number of links that may still be followed
  induction links generalizing dir steps w with
  | zero => exact descend_of_follow (fun _ _ _ h => by simp at h) h
  | succ links ih => exact descend_of_follow (fun _ _ _ h => ih h) h

/-- Steps behind those that lead to a directory are taken from that directory. The second hypothesis
says the same of what is done at links. -/
theorem follow_append {place : Except DiskError Place}
    (hend : ∀ onLink w, follow root true onLink w names more = place)
    (hlink : ∀ dir steps w w', onLink dir steps w = .ok (.existing names (.directory es)) →
      onLink dir (steps ++ more) w' = place)
    (w w' : Bool) (dir steps : List String)
    (h : follow root true onLink w dir steps = .ok (.existing names (.directory es))) :
    follow root true onLink w' dir (steps ++ more) = place := by
  induction steps generalizing dir with
  | nil =>
    obtain ⟨-, rfl⟩ := follow_nil_eq_ok h
    exact hend onLink w'
  | cons step steps ih =>
    rw [follow] at h
    rw [List.cons_append, follow]
    -- the new steps are looked at only in the end, so every step before them goes as it went
    split at h
    · rename_i hhere
      rw [if_pos hhere]
      exact ih dir h
    · rename_i hhere
      rw [if_neg hhere]
      split at h
      · rename_i hup
        rw [if_pos hup]
        exact ih dir.dropLast h
      · rename_i hup
        rw [if_neg hup]
        split at h
        · simp at h
        · rename_i hshort
          rw [if_neg hshort]
          split at h
          · -- a free name, a locked directory or a file is no directory to go on from
            split at h <;> simp at h
          · exact ih (dir ++ [step]) h
          · split at h <;> simp at h
          · split at h <;> simp at h
          · -- the steps of the link come first, and the new steps stay the last ones
            rw [if_neg (by simp)] at h
            rw [if_neg (by simp)]
            dsimp only at h ⊢
            rw [← List.append_assoc]
            exact hlink _ _ _ _ h

/-- Steps that lead to a directory may be followed by others, which go on from there. -/
theorem followLinks_append {place : Except DiskError Place}
    (hend : ∀ onLink w, follow root true onLink w names more = place)
    (links : Nat) (w w' : Bool) (dir steps : List String)
    (h : followLinks root true links dir steps w = .ok (.existing names (.directory es))) :
    followLinks root true links dir (steps ++ more) w' = place := by
  induction links generalizing dir steps w w' with
  | zero => exact follow_append hend (fun _ _ _ _ h => by simp at h) w w' dir steps h
  | succ links ih =>
    exact follow_append hend (fun dir steps w w' h => ih w w' dir steps h) w w' dir steps h

/-- A name in a directory leads into the directory of that name. -/
theorem follow_enter {dir : List String} (hdir : root.descend dir = some es) (hn : IsEntryName n)
    (hlookup : es.lookup n = some (.directory inner)) (w : Bool) (ns : List String) :
    follow root true onLink w dir (n :: ns) = follow root true onLink w (dir ++ [n]) ns := by
  rw [follow, if_neg hn.ne_here, if_neg hn.ne_up, if_neg (by simpa using hn.short), hdir]
  simp only [Option.bind_some, hlookup]

/-- Names lead from directory to directory. -/
theorem follow_descend {dir ns : List String} (hdir : root.descend dir = some es)
    (hns : ∀ n ∈ ns, IsEntryName n) (h : es.descend ns = some inner) (w : Bool) :
    follow root true onLink w dir ns = .ok (.existing (dir ++ ns) (.directory inner)) := by
  induction ns generalizing dir es with
  | nil =>
    rw [Entries.descend, Option.some.injEq] at h
    rw [follow, hdir, List.append_nil, h]
  | cons n ns ih =>
    obtain ⟨middle, hlookup, hrest⟩ := Entries.descend_cons_eq_some h
    obtain ⟨hn, hns⟩ := List.forall_mem_cons.mp hns
    -- the next step starts in the directory just entered
    have hmiddle := Entries.descend_concat hdir hlookup
    rw [follow_enter hdir hn hlookup, ih hmiddle hns hrest, List.append_assoc,
      List.singleton_append]

/-- Names lead to a locked directory, and no further. -/
theorem follow_locked {dir ns : List String} (hdir : root.descend dir = some es)
    (hns : ∀ n ∈ ns, IsEntryName n) (hwithin : es.within ns = some inner)
    (h : es.descend ns = none) :
    ∃ place, (place = .error .accessDenied ∨ place = .ok (.existing (dir ++ ns) (.locked inner))) ∧
      ∀ onLink w, follow root true onLink w dir ns = place := by
  induction ns generalizing dir es with
  | nil => simp [Entries.descend] at h
  | cons n ns ih =>
    obtain ⟨hn, hns⟩ := List.forall_mem_cons.mp hns
    rw [Entries.within] at hwithin
    obtain ⟨middle, hmiddle, hrest⟩ := Option.bind_eq_some_iff.mp hwithin
    obtain ⟨node, hlookup, hnode⟩ := Option.bind_eq_some_iff.mp hmiddle
    cases node with
    | file c => simp [Node.entries?] at hnode
    | link target => simp [Node.entries?] at hnode
    | directory fs =>
      obtain rfl : fs = middle := by simpa [Node.entries?] using hnode
      have hinner : Entries.descend ns fs = none := by simpa [Entries.descend, hlookup] using h
      obtain ⟨place, hplace, hfollow⟩ :=
        ih (Entries.descend_concat hdir hlookup) hns hrest hinner
      refine ⟨place, by simpa using hplace, fun onLink w => ?_⟩
      rw [follow_enter hdir hn hlookup]
      exact hfollow onLink w
    | locked fs =>
      obtain rfl : fs = middle := by simpa [Node.entries?] using hnode
      -- the locked directory is the end of the way, or it stops the steps behind it
      refine ⟨if ns = [] then .ok (.existing (dir ++ [n]) (.locked fs)) else .error .accessDenied,
        ?_, fun onLink w => ?_⟩
      · cases ns with
        | nil =>
          obtain rfl : fs = inner := by simpa [Entries.within] using hrest
          exact .inr rfl
        | cons m ms => exact .inl rfl
      · rw [follow, if_neg hn.ne_here, if_neg hn.ne_up, if_neg (by simpa using hn.short), hdir]
        simp only [Option.bind_some, hlookup]

/-- Not to pass the last link changes a result only into a link. -/
theorem follow_last {pass stay : List String → List String → Bool → Except DiskError Place}
    (hlink : ∀ dir steps w, stay dir steps w = pass dir steps w ∨
      ∃ names target, stay dir steps w = .ok (.existing names (.link target)))
    (w : Bool) (dir steps : List String) :
    follow root false stay w dir steps = follow root true pass w dir steps ∨
      ∃ names target, follow root false stay w dir steps = .ok (.existing names (.link target)) := by
  induction steps generalizing dir with
  | nil => exact .inl rfl
  | cons step steps ih =>
    rw [follow, follow]
    split
    · exact ih dir
    · split
      · exact ih dir.dropLast
      · split
        · exact .inl rfl
        · split
          · exact .inl rfl
          · exact ih (dir ++ [step])
          · exact .inl rfl
          · exact .inl rfl
          · -- only here the two differ: one stops at the link, the other passes it
            have hpass : ¬(steps = [] ∧ (!w) = true ∧ (!true) = true) := by simp
            rw [if_neg hpass]
            split
            · exact .inr ⟨_, _, rfl⟩
            · exact hlink _ _ _

/-- Not following the last link matters only where there is one. -/
theorem followLinks_last (links : Nat) (w : Bool) (dir steps : List String) :
    followLinks root false links dir steps w = followLinks root true links dir steps w ∨
      ∃ names target,
        followLinks root false links dir steps w = .ok (.existing names (.link target)) := by
  induction links generalizing dir steps w with
  | zero => exact follow_last (fun _ _ _ => .inl rfl) w dir steps
  | succ links ih => exact follow_last (fun dir steps w => ih w dir steps) w dir steps

end Steps

/-! ## Paths -/

/-- A path has the node that it resolves to. -/
theorem node_eq_ok {d : Disk} {followLast : Bool} {p : Path} {node : Node} :
    d.node followLast p = .ok node ↔
      ∃ names, d.resolve followLast p = .ok (.existing names node) := by
  unfold Disk.node
  split <;> rename_i h <;> simp [h]

/-- A path leads to a directory with these entries. -/
theorem directory?_eq_some {d : Disk} {p : Path} {es : Entries} :
    d.directory? p = some es ↔ d.node true p = .ok (.directory es) := by
  unfold directory?
  split
  · rename_i h
    simp [h]
  · rename_i h
    simpa using h es

/-- Something is there if the path resolves to it. -/
theorem hasNode_iff {d : Disk} {p : Path} :
    d.hasNode p = true ↔ ∃ names node, d.resolve true p = .ok (.existing names node) := by
  have hnode : d.hasNode p = true ↔ ∃ node, d.node true p = .ok node := by
    unfold hasNode
    cases d.node true p <;> simp
  rw [hnode, exists_comm]
  exact exists_congr fun node => node_eq_ok

/-- A directory is there, whether it can be entered or not. -/
theorem hasDirectory_iff {d : Disk} {p : Path} :
    d.hasDirectory p = true ↔
      (∃ es, d.node true p = .ok (.directory es)) ∨ ∃ es, d.node true p = .ok (.locked es) := by
  unfold hasDirectory
  split <;> rename_i h <;> simp [h]
  simp_all

/-- Where nothing is, there is no directory. -/
theorem hasDirectory_eq_false_of_hasNode {d : Disk} {p : Path} (h : d.hasNode p = false) :
    d.hasDirectory p = false := by
  rw [Bool.eq_false_iff]
  intro hdirectory
  have hnode : ∃ node, d.node true p = .ok node := by
    rcases hasDirectory_iff.mp hdirectory with ⟨es, hes⟩ | ⟨es, hes⟩
    · exact ⟨_, hes⟩
    · exact ⟨_, hes⟩
  obtain ⟨node, hnode⟩ := hnode
  obtain ⟨names, hresolve⟩ := node_eq_ok.mp hnode
  rw [hasNode_iff.mpr ⟨names, node, hresolve⟩] at h
  cases h

theorem hasDirectory_of_directory? {d : Disk} {p : Path} {es : Entries}
    (h : d.directory? p = some es) : d.hasDirectory p = true :=
  hasDirectory_iff.mpr (.inl ⟨es, directory?_eq_some.mp h⟩)

/-- To resolve a path is to resolve its route, if it has one. -/
theorem resolve_eq_ok {d : Disk} {followLast : Bool} {p : Path} {place : Place} :
    d.resolve followLast p = .ok place ↔
      ∃ r, route p = .ok r ∧ d.resolveRoute followLast r = .ok place := by
  unfold resolve
  cases route p <;> simp [Except.bind]

/-- A path that leads somewhere is not empty. -/
theorem text_ne_nil_of_directory? {d : Disk} {p : Path} {es : Entries}
    (h : d.directory? p = some es) : p.text.toList ≠ [] := by
  obtain ⟨names, hresolve⟩ := node_eq_ok.mp (directory?_eq_some.mp h)
  obtain ⟨r, hroute, -⟩ := resolve_eq_ok.mp hresolve
  exact (route_eq_ok_iff.mp hroute).1

/-- Where names behind a path to a directory lead: where they lead from that directory. -/
theorem exists_resolve_below {d : Disk} {p : Path} {es : Entries} {ns : List String}
    (hp : d.directory? p = some es) (hns : ∀ n ∈ ns, IsEntryName n)
    (hshort : isTooLong (p.below ns) = false) :
    ∃ names, d.entries.descend names = some es ∧ ∀ place,
      (∀ onLink w, follow d.entries true onLink w names ns = place) →
        d.resolve true (p.below ns) = place := by
  obtain ⟨names, hresolve⟩ := node_eq_ok.mp (directory?_eq_some.mp hp)
  obtain ⟨r, hroute, hplace⟩ := resolve_eq_ok.mp hresolve
  obtain ⟨w, hbelow⟩ := route_below hroute hns hshort
  refine ⟨names, descend_of_followLinks hplace, fun place hend => ?_⟩
  rw [resolve, hbelow]
  exact followLinks_append hend linkLimit r.endsInSlash w _ r.steps hplace

/-- The directories below a directory are found by their paths, unless these are too long. -/
theorem directory?_below {d : Disk} {p : Path} {es inner : Entries} {ns : List String}
    (hp : d.directory? p = some es) (hns : ∀ n ∈ ns, IsEntryName n)
    (hshort : isTooLong (p.below ns) = false) (hdescend : es.descend ns = some inner) :
    d.directory? (p.below ns) = some inner := by
  obtain ⟨names, hnames, hplace⟩ := exists_resolve_below hp hns hshort
  rw [directory?_eq_some, node_eq_ok]
  exact ⟨names ++ ns, hplace _ fun onLink w => follow_descend hnames hns hdescend w⟩

/-! ## Places that cannot be looked into -/

/-- A path fails, or leads to a locked directory. -/
def Refuses (d : Disk) (p : Path) : Prop :=
  (∃ e, d.node true p = .error e) ∨ ∃ es, d.node true p = .ok (.locked es)

/-- A path that is refused leads to no directory that can be listed. -/
theorem Refuses.directory?_eq_none {d : Disk} {p : Path} (h : d.Refuses p) :
    d.directory? p = none := by
  unfold directory?
  rcases h with ⟨e, he⟩ | ⟨es, hes⟩
  · rw [he]
  · rw [hes]

/-- A directory that is locked, stands in a locked one or has a path that is too long cannot be
looked into. -/
theorem refuses_below {d : Disk} {p : Path} {es inner : Entries} {ns : List String}
    (hp : d.directory? p = some es) (hns : ∀ n ∈ ns, IsEntryName n)
    (hwithin : es.within ns = some inner)
    (h : es.descend ns = none ∨ isTooLong (p.below ns) = true) : d.Refuses (p.below ns) := by
  cases hlong : isTooLong (p.below ns) with
  | true =>
    obtain ⟨e, hroute, -⟩ := route_of_isTooLong hlong
    refine .inl ⟨e, ?_⟩
    unfold Disk.node resolve
    rw [hroute]
    rfl
  | false =>
    have hlocked : es.descend ns = none := h.resolve_right (by simp [hlong])
    obtain ⟨names, hnames, hplace⟩ := exists_resolve_below hp hns hlong
    -- somewhere on the way, or at its end, a directory is locked
    obtain ⟨place, hcases, hfollow⟩ := follow_locked hnames hns hwithin hlocked
    have hresolve := hplace place hfollow
    unfold Refuses Disk.node
    rw [hresolve]
    rcases hcases with rfl | rfl
    · exact .inl ⟨.accessDenied, rfl⟩
    · exact .inr ⟨inner, rfl⟩

/-- The directories below a directory that can be listed: those with a path that is not too long and
no locked directory on the way. -/
theorem isSome_directory?_below_iff {d : Disk} {p : Path} {es : Entries} {ns : List String}
    (hp : d.directory? p = some es) (hns : ∀ n ∈ ns, IsEntryName n)
    (hwithin : (es.within ns).isSome) :
    (d.directory? (p.below ns)).isSome ↔
      (es.descend ns).isSome ∧ isTooLong (p.below ns) = false := by
  obtain ⟨inner, hinner⟩ := Option.isSome_iff_exists.mp hwithin
  constructor
  · intro hsome
    -- what can be listed is not refused
    have hnot : ¬d.Refuses (p.below ns) := by
      intro hrefuses
      rw [hrefuses.directory?_eq_none] at hsome
      cases hsome
    have hopen := mt (refuses_below hp hns hinner) hnot
    rw [not_or, ← ne_eq, Option.ne_none_iff_isSome, Bool.not_eq_true] at hopen
    exact hopen
  · rintro ⟨hdescend, hshort⟩
    obtain ⟨found, hfound⟩ := Option.isSome_iff_exists.mp hdescend
    rw [directory?_below hp hns hshort hfound]
    rfl

/-- A directory of the tree that cannot be listed is refused: something on the way is locked, or the
path is too long. -/
theorem refuses_of_directory?_eq_none {d : Disk} {p : Path} {es : Entries} {ns : List String}
    (hp : d.directory? p = some es) (hns : ∀ n ∈ ns, IsEntryName n)
    (hwithin : (es.within ns).isSome) (h : d.directory? (p.below ns) = none) :
    d.Refuses (p.below ns) := by
  obtain ⟨inner, hinner⟩ := Option.isSome_iff_exists.mp hwithin
  apply refuses_below hp hns hinner
  -- it can be listed unless one of the two stands in the way
  have hnot := mt (isSome_directory?_below_iff hp hns hwithin).mpr (by simp [h])
  rw [not_and_or, Option.not_isSome_iff_eq_none, Bool.not_eq_false] at hnot
  exact hnot

/-- Without passing the last link, a path leads to what it leads to anyway, or to that link. -/
theorem node_last (d : Disk) (p : Path) :
    d.node false p = d.node true p ∨ ∃ target, d.node false p = .ok (.link target) := by
  unfold Disk.node resolve
  cases route p with
  | error e => exact .inl rfl
  | ok r =>
    have hlast : d.resolveRoute false r = d.resolveRoute true r ∨
        ∃ names target, d.resolveRoute false r = .ok (.existing names (.link target)) :=
      followLinks_last linkLimit r.endsInSlash _ r.steps
    rcases hlast with hsame | ⟨names, target, hlink⟩
    · left
      simp only [Except.bind, hsame]
    · right
      exact ⟨target, by simp only [Except.bind, hlink]⟩

/-- A walk from a path that leads to a directory visits its entries. -/
theorem walk_of_directory {d : Disk} {p : Path} {es : Entries} (c : Config)
    (h : d.directory? p = some es) : d.walk c p = .ok (Entries.visits c p es) := by
  have hnode := directory?_eq_some.mp h
  rcases d.node_last p with hsame | ⟨target, hlink⟩
  · rw [walk, hsame, hnode]
  · rw [walk, hlink]
    dsimp only
    rw [hnode]

/-- A walk from a path that refuses fails. -/
theorem Refuses.walk_eq_error {d : Disk} {p : Path} (h : d.Refuses p) (c : Config) :
    ∃ e, d.walk c p = .error e := by
  have hpassed : ∀ e es, d.node true p = .error e ∨ d.node true p = .ok (.locked es) →
      ∃ e, d.walk c p = .error e := by
    intro e es hnode
    -- a link at the end is followed by the walk
    rcases d.node_last p with hsame | ⟨target, hlink⟩
    · rw [walk, hsame]
      rcases hnode with he | hes
      · exact ⟨e, by rw [he]⟩
      · exact ⟨.accessDenied, by rw [hes]⟩
    · rw [walk, hlink]
      rcases hnode with he | hes
      · exact ⟨e, by rw [he]⟩
      · exact ⟨.accessDenied, by rw [hes]⟩
  rcases h with ⟨e, he⟩ | ⟨es, hes⟩
  · exact hpassed e [] (.inl he)
  · exact hpassed .notFound es (.inr hes)

end Disk

end NamingLint
