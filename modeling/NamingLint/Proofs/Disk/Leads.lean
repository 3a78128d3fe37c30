import NamingLint.Proofs.Disk.Marks
import NamingLint.Proofs.Path.Components

/-!
# NamingLint — trails

The way that steps take from a directory to a directory, told as a relation: one rule for each kind
of step, and the number of links that are passed. Unlike a search with a limit, trails can be put
together and taken apart, and they are still there in a tree with more directories and links.

* `Leads root n dir steps names` — steps lead from `dir` to `names`, past `n` links.
* `FirstStep` — what a search does with its first step.

Main results:

* `Leads.append`, `leads_append_iff` — trails are put together and taken apart.
* `Leads.mono` — a trail is still there in a tree that has its directories and links.
* `leads_noDots_iff` — a step `.` does not count.
* `followLinks_eq_directory_iff` — following steps finds a directory exactly if a trail leads there
  past no more links than the limit.
* `Leads.followLinks_append`, `exists_leads_of_followLinks` — what is found behind a directory.
-/

namespace NamingLint.Disk

/-- A step that is looked up in a directory. -/
structure IsNameStep (step : String) : Prop where
  ne_here : step ≠ "."
  ne_up : step ≠ ".."
  short : step.utf8ByteSize ≤ longestName

theorem isNameStep_of_isEntryName {n : String} (h : IsEntryName n) : IsNameStep n :=
  ⟨h.ne_here, h.ne_up, h.short⟩

/-- Where the target of a link that stands in `dir` starts. -/
def linkStart (target : String) (dir : List String) : List String :=
  if (Route.ofText target.toList).isAbsolute then [] else dir

/-- The steps of the target of a link. -/
def linkSteps (target : String) : List String :=
  (Route.ofText target.toList).steps

/-- Steps lead from a directory to a directory, past a number of links. -/
inductive Leads (root : Entries) : Nat → List String → List String → List String → Prop where
  | nil (dir : List String) : Leads root 0 dir [] dir
  | here {n : Nat} {dir steps names : List String} {step : String} (isHere : step = ".")
    (rest : Leads root n dir steps names) : Leads root n dir (step :: steps) names
  | up {n : Nat} {dir steps names : List String} {step : String} (isUp : step = "..")
    (rest : Leads root n dir.dropLast steps names) : Leads root n dir (step :: steps) names
  | enter {n : Nat} {dir steps names : List String} {step : String} {es : Entries}
    (isName : IsNameStep step) (found : root.nodeAt (dir ++ [step]) = some (.directory es))
    (rest : Leads root n (dir ++ [step]) steps names) : Leads root n dir (step :: steps) names
  | link {m n : Nat} {dir steps middle names : List String} {step target : String}
    (isName : IsNameStep step) (found : root.nodeAt (dir ++ [step]) = some (.link target))
    (passed : Leads root m (linkStart target dir) (linkSteps target) middle)
    (rest : Leads root n middle steps names) : Leads root (m + n + 1) dir (step :: steps) names

section Trails

variable {root root' : Entries} {m n : Nat} {dir middle names names' steps : List String}

/-! ## Trails together and apart -/

/-- Steps that lead somewhere, and steps that lead on; the links on the way add up. -/
theorem Leads.append {rest : List String} (h : Leads root m dir steps middle)
    (h' : Leads root n middle rest names) : Leads root (m + n) dir (steps ++ rest) names := by
  induction h with
  | nil dir =>
    rw [Nat.zero_add]
    exact h'
  | here isHere _ ih => exact .here isHere (ih h')
  | up isUp _ ih => exact .up isUp (ih h')
  | enter isName found _ ih => exact .enter isName found (ih h')
  | @link m k _ _ _ _ _ _ isName found passed _ _ ih =>
    -- the link counts as one, together with those on its own way
    rw [show m + k + 1 + n = m + (k + n) + 1 by omega]
    exact .link isName found passed (ih h')

/-- A trail of two parts leads through a directory between them. -/
theorem leads_append_iff {rest : List String} :
    Leads root n dir (steps ++ rest) names ↔
      ∃ k l middle, n = k + l ∧ Leads root k dir steps middle ∧ Leads root l middle rest names := by
  constructor
  · intro h
    induction steps generalizing n dir with
    | nil => exact ⟨0, n, dir, by omega, .nil dir, h⟩
    | cons step steps ih =>
      -- each first step stays in the first part
      cases h with
      | here isHere h =>
        obtain ⟨k, l, middle, hn, hfirst, hrest⟩ := ih h
        exact ⟨k, l, middle, hn, .here isHere hfirst, hrest⟩
      | up isUp h =>
        obtain ⟨k, l, middle, hn, hfirst, hrest⟩ := ih h
        exact ⟨k, l, middle, hn, .up isUp hfirst, hrest⟩
      | enter isName found h =>
        obtain ⟨k, l, middle, hn, hfirst, hrest⟩ := ih h
        exact ⟨k, l, middle, hn, .enter isName found hfirst, hrest⟩
      | @link m _ _ _ _ _ _ _ isName found passed h =>
        obtain ⟨k, l, middle, hn, hfirst, hrest⟩ := ih h
        exact ⟨m + k + 1, l, middle, by omega, .link isName found passed hfirst, hrest⟩
  · rintro ⟨k, l, middle, rfl, hfirst, hrest⟩
    exact hfirst.append hrest

/-- Steps lead to one place. -/
theorem Leads.unique (h : Leads root m dir steps names) (h' : Leads root n dir steps names') :
    m = n ∧ names = names' := by
  -- the step and what is found there decide which case applies
  induction h generalizing n names' with
  | nil dir =>
    cases h'
    exact ⟨rfl, rfl⟩
  | here isHere _ ih =>
    subst isHere
    cases h' with
    | here _ rest => exact ih rest
    | up isUp => simp at isUp
    | enter isName => exact absurd rfl isName.ne_here
    | link isName => exact absurd rfl isName.ne_here
  | up isUp _ ih =>
    subst isUp
    cases h' with
    | here isHere => simp at isHere
    | up _ rest => exact ih rest
    | enter isName => exact absurd rfl isName.ne_up
    | link isName => exact absurd rfl isName.ne_up
  | enter isName found _ ih =>
    cases h' with
    | here isHere => exact absurd isHere isName.ne_here
    | up isUp => exact absurd isUp isName.ne_up
    | enter _ _ rest => exact ih rest
    | link _ found' => simp [found] at found'
  | link isName found _ _ ihPassed ihRest =>
    cases h' with
    | here isHere => exact absurd isHere isName.ne_here
    | up isUp => exact absurd isUp isName.ne_up
    | enter _ found' => simp [found] at found'
    | link _ found' passed rest =>
      rw [found] at found'
      cases found'
      obtain ⟨rfl, rfl⟩ := ihPassed passed
      obtain ⟨rfl, rfl⟩ := ihRest rest
      exact ⟨rfl, rfl⟩

/-- A trail is still there in a tree that has all directories and links of the first one. -/
theorem Leads.mono (h : Leads root n dir steps names) (hways : Entries.KeepsWays root root') :
    Leads root' n dir steps names := by
  induction h with
  | nil dir => exact .nil dir
  | here isHere _ ih => exact .here isHere ih
  | up isUp _ ih => exact .up isUp ih
  | enter isName found _ ih =>
    -- the directory may hold more, but it is one still
    obtain ⟨es, hes⟩ := hways.descend (Entries.descend_eq_some_iff.mpr found)
    exact .enter isName (Entries.descend_eq_some_iff.mp hes) ih
  | link isName found _ _ ihPassed ihRest =>
    exact .link isName (hways.link found) ihPassed ihRest

/-! ## Dots -/

/-- A step `.` does not count. -/
theorem leads_noDots_iff : Leads root n dir (noDots steps) names ↔ Leads root n dir steps names := by
  induction steps generalizing n dir with
  | nil => rfl
  | cons step steps ih =>
    by_cases hstep : step = "."
    · subst hstep
      -- a dot stays where it is
      rw [noDots_here, ih]
      constructor
      · exact .here rfl
      · intro h
        cases h with
        | here _ rest => exact rest
        | up isUp => simp at isUp
        | enter isName => exact absurd rfl isName.ne_here
        | link isName => exact absurd rfl isName.ne_here
    · rw [noDots_cons hstep]
      constructor
      · intro h
        cases h with
        | here isHere => exact absurd isHere hstep
        | up isUp rest => exact .up isUp (ih.mp rest)
        | enter isName found rest => exact .enter isName found (ih.mp rest)
        | link isName found passed rest => exact .link isName found passed (ih.mp rest)
      · intro h
        cases h with
        | here isHere => exact absurd isHere hstep
        | up isUp rest => exact .up isUp (ih.mpr rest)
        | enter isName found rest => exact .enter isName found (ih.mpr rest)
        | link isName found passed rest => exact .link isName found passed (ih.mpr rest)

end Trails

/-! ## One step of a search -/

section Steps

variable {root : Entries} {followLast w : Bool} {links : Nat} {dir steps : List String}
  {step : String}

theorem followLinks_nil :
    followLinks root followLast links dir [] w =
      match root.descend dir with
      | some es => .ok (.existing dir (.directory es))
      | none => .error .notFound := by
  cases links <;> rfl

/-- A dot stays where it is. -/
theorem followLinks_here :
    followLinks root followLast links dir ("." :: steps) w =
      followLinks root followLast links dir steps w := by
  cases links <;> rw [followLinks, followLinks, follow, if_pos rfl]

/-- Two dots go up, without a look at what is there. -/
theorem followLinks_up :
    followLinks root followLast links dir (".." :: steps) w =
      followLinks root followLast links dir.dropLast steps w := by
  cases links <;> rw [followLinks, followLinks, follow, if_neg (by decide), if_pos rfl]

/-- A name that is too long is refused before it is looked up. -/
theorem followLinks_long (hhere : step ≠ ".") (hup : step ≠ "..")
    (hlong : longestName < step.utf8ByteSize) :
    followLinks root followLast links dir (step :: steps) w = .error .nameTooLong := by
  cases links <;> rw [followLinks, follow, if_neg hhere, if_neg hup, if_pos hlong]

variable (hstep : IsNameStep step)

include hstep

/-- A name that is not there is a place for something new, if it is the last step. -/
theorem followLinks_absent (h : root.nodeAt (dir ++ [step]) = none) :
    followLinks root followLast links dir (step :: steps) w =
      if steps = [] ∧ (root.descend dir).isSome then .ok (.vacant dir step)
      else .error .notFound := by
  have hshort : ¬longestName < step.utf8ByteSize := Nat.not_lt.mpr hstep.short
  cases links <;>
    rw [followLinks, follow, if_neg hstep.ne_here, if_neg hstep.ne_up, if_neg hshort,
      Entries.bind_lookup_descend, h]

/-- A directory is entered. -/
theorem followLinks_enter {es : Entries}
    (h : root.nodeAt (dir ++ [step]) = some (.directory es)) :
    followLinks root followLast links dir (step :: steps) w =
      followLinks root followLast links (dir ++ [step]) steps w := by
  have hshort : ¬longestName < step.utf8ByteSize := Nat.not_lt.mpr hstep.short
  cases links <;>
    rw [followLinks, followLinks, follow, if_neg hstep.ne_here, if_neg hstep.ne_up, if_neg hshort,
      Entries.bind_lookup_descend, h]

/-- A locked directory may be the last step, and no other. -/
theorem followLinks_locked {es : Entries} (h : root.nodeAt (dir ++ [step]) = some (.locked es)) :
    followLinks root followLast links dir (step :: steps) w =
      if steps = [] then .ok (.existing (dir ++ [step]) (.locked es))
      else .error .accessDenied := by
  have hshort : ¬longestName < step.utf8ByteSize := Nat.not_lt.mpr hstep.short
  cases links <;>
    rw [followLinks, follow, if_neg hstep.ne_here, if_neg hstep.ne_up, if_neg hshort,
      Entries.bind_lookup_descend, h]

/-- A file may be the last step, without a slash after it. -/
theorem followLinks_file {c : Content} (h : root.nodeAt (dir ++ [step]) = some (.file c)) :
    followLinks root followLast links dir (step :: steps) w =
      if steps = [] ∧ !w then .ok (.existing (dir ++ [step]) (.file c))
      else .error .notDirectory := by
  have hshort : ¬longestName < step.utf8ByteSize := Nat.not_lt.mpr hstep.short
  cases links <;>
    rw [followLinks, follow, if_neg hstep.ne_here, if_neg hstep.ne_up, if_neg hshort,
      Entries.bind_lookup_descend, h]

/-- A link is followed, unless it is the last step and asked for itself. -/
theorem followLinks_link {target : String}
    (h : root.nodeAt (dir ++ [step]) = some (.link target)) :
    followLinks root followLast links dir (step :: steps) w =
      if steps = [] ∧ !w ∧ !followLast then .ok (.existing (dir ++ [step]) (.link target))
      else
        match links with
        | 0 => .error .tooManyLinks
        | links + 1 =>
          followLinks root followLast links (linkStart target dir) (linkSteps target ++ steps)
            (w || (steps = [] && (Route.ofText target.toList).endsInSlash)) := by
  have hshort : ¬longestName < step.utf8ByteSize := Nat.not_lt.mpr hstep.short
  -- without a link left to follow there is an error
  cases links with
  | zero =>
    rw [followLinks, follow, if_neg hstep.ne_here, if_neg hstep.ne_up, if_neg hshort,
      Entries.bind_lookup_descend, h]
  | succ links =>
    rw [followLinks, follow, if_neg hstep.ne_here, if_neg hstep.ne_up, if_neg hshort,
      Entries.bind_lookup_descend, h]
    rfl

end Steps

/-- What a search does with its first step if it finds something. -/
inductive FirstStep (root : Entries) (followLast : Bool) (links : Nat) (dir : List String)
    (step : String) (steps : List String) (w : Bool) (place : Place) : Prop where
  | here (isHere : step = ".") (rest : followLinks root followLast links dir steps w = .ok place)
  | up (isUp : step = "..")
    (rest : followLinks root followLast links dir.dropLast steps w = .ok place)
  | vacant (isName : IsNameStep step) (absent : root.nodeAt (dir ++ [step]) = none)
    (last : steps = []) (alive : (root.descend dir).isSome) (isPlace : place = .vacant dir step)
  | enter {es : Entries} (isName : IsNameStep step)
    (found : root.nodeAt (dir ++ [step]) = some (.directory es))
    (rest : followLinks root followLast links (dir ++ [step]) steps w = .ok place)
  | lock {es : Entries} (isName : IsNameStep step)
    (found : root.nodeAt (dir ++ [step]) = some (.locked es)) (last : steps = [])
    (isPlace : place = .existing (dir ++ [step]) (.locked es))
  | file {content : Content} (isName : IsNameStep step)
    (found : root.nodeAt (dir ++ [step]) = some (.file content)) (last : steps = [])
    (bare : w = false) (isPlace : place = .existing (dir ++ [step]) (.file content))
  | stay {target : String} (isName : IsNameStep step)
    (found : root.nodeAt (dir ++ [step]) = some (.link target)) (last : steps = [])
    (bare : w = false) (stays : followLast = false)
    (isPlace : place = .existing (dir ++ [step]) (.link target))
  | pass {target : String} {l : Nat} (isName : IsNameStep step)
    (found : root.nodeAt (dir ++ [step]) = some (.link target)) (isLinks : links = l + 1)
    (passes : ¬(steps = [] ∧ !w ∧ !followLast))
    (rest : followLinks root followLast l (linkStart target dir) (linkSteps target ++ steps)
      (w || (steps = [] && (Route.ofText target.toList).endsInSlash)) = .ok place)

/-! ## Searches and trails -/

section Searches

variable {root : Entries} {followLast w : Bool} {n links : Nat}
  {dir middle names steps rest : List String} {step : String}

/-- All that the first step may do if following succeeds. -/
theorem firstStep_of_followLinks {place : Place}
    (h : followLinks root followLast links dir (step :: steps) w = .ok place) :
    FirstStep root followLast links dir step steps w place := by
  by_cases hhere : step = "."
  · subst hhere
    rw [followLinks_here] at h
    exact .here rfl h
  by_cases hup : step = ".."
  · subst hup
    rw [followLinks_up] at h
    exact .up rfl h
  by_cases hlong : longestName < step.utf8ByteSize
  · rw [followLinks_long hhere hup hlong] at h
    simp at h
  have hstep : IsNameStep step := ⟨hhere, hup, Nat.not_lt.mp hlong⟩
  -- a step that is a name is looked up
  cases hnode : root.nodeAt (dir ++ [step]) with
  | none =>
    rw [followLinks_absent hstep hnode] at h
    split at h
    · rename_i hlast
      cases h
      exact .vacant hstep hnode hlast.1 hlast.2 rfl
    · simp at h
  | some node =>
    cases node with
    | directory es =>
      rw [followLinks_enter hstep hnode] at h
      exact .enter hstep hnode h
    | locked es =>
      rw [followLinks_locked hstep hnode] at h
      split at h
      · rename_i hlast
        cases h
        exact .lock hstep hnode hlast rfl
      · simp at h
    | file content =>
      rw [followLinks_file hstep hnode] at h
      split at h
      · rename_i hlast
        cases h
        exact .file hstep hnode hlast.1 (by simpa using hlast.2) rfl
      · simp at h
    | link target =>
      rw [followLinks_link hstep hnode] at h
      split at h
      · rename_i hlast
        cases h
        exact .stay hstep hnode hlast.1 (by simpa using hlast.2.1) (by simpa using hlast.2.2) rfl
      · rename_i hpasses
        cases links with
        | zero => simp at h
        | succ l => exact .pass hstep hnode rfl hpasses h

/-- Without a step to take, a search finds the directory it is in. -/
theorem descend_of_followLinks_nil {place : Place}
    (h : followLinks root followLast links dir [] w = .ok place) :
    ∃ es, root.descend dir = some es ∧ place = .existing dir (.directory es) := by
  rw [followLinks_nil] at h
  split at h
  · rename_i es hes
    cases h
    exact ⟨es, hes, rfl⟩
  · simp at h

/-- What stands behind a directory is looked for from that directory on. -/
theorem Leads.followLinks_append (h : Leads root n dir steps middle) (hlinks : n ≤ links)
    (hrest : rest ≠ []) :
    followLinks root followLast links dir (steps ++ rest) w =
      followLinks root followLast (links - n) middle rest w := by
  induction h generalizing links rest with
  | nil dir => rfl
  | here isHere _ ih =>
    subst isHere
    rw [List.cons_append, followLinks_here, ih hlinks hrest]
  | up isUp _ ih =>
    subst isUp
    rw [List.cons_append, followLinks_up, ih hlinks hrest]
  | enter isName found _ ih => rw [List.cons_append, followLinks_enter isName found, ih hlinks hrest]
  | @link m k _ steps _ _ _ target isName found _ _ ihPassed ihRest =>
    obtain ⟨links, rfl⟩ : ∃ l, links = l + 1 := ⟨links - 1, by omega⟩
    -- something follows, so the link is not the last step and is passed
    have hne : steps ++ rest ≠ [] := by simp [hrest]
    rw [List.cons_append, followLinks_link isName found, if_neg (by simp [hrest])]
    dsimp only
    rw [show (w || (decide (steps ++ rest = []) && (Route.ofText target.toList).endsInSlash)) = w by
      simp [hrest]]
    rw [ihPassed (by omega) hne, ihRest (by omega) hrest,
      show links - m - k = links + 1 - (m + k + 1) by omega]

/-- A trail in an empty tree passes nothing but `.` and `..`, so steps lead the same way in any
tree. -/
theorem Leads.followLinks_of_empty (h : Leads [] n dir steps names) :
    followLinks root followLast links dir steps w =
      followLinks root followLast links names [] w := by
  -- an empty disk has nothing to enter
  have hnone : ∀ (ns : List String) (m : String), Entries.nodeAt (ns ++ [m]) [] = none := by
    intro ns m
    cases ns <;> rfl
  induction h with
  | nil dir => rfl
  | here isHere _ ih =>
    subst isHere
    rw [followLinks_here, ih]
  | up isUp _ ih =>
    subst isUp
    rw [followLinks_up, ih]
  | enter _ found => simp [hnone] at found
  | link _ found => simp [hnone] at found

/-- Something is found behind steps only if they lead to a directory. -/
theorem exists_leads_of_followLinks {place : Place} (hrest : rest ≠ [])
    (h : followLinks root followLast links dir (steps ++ rest) w = .ok place) :
    ∃ k middle, k ≤ links ∧ Leads root k dir steps middle := by
  -- a link is passed with fewer links left, and every other step leaves fewer steps
  induction links using Nat.strongRecOn generalizing dir steps rest w with
  | _ links ih =>
  induction steps generalizing dir with
  | nil => exact ⟨0, dir, by omega, .nil dir⟩
  | cons step steps ihSteps =>
    have hne : steps ++ rest ≠ [] := by simp [hrest]
    rw [List.cons_append] at h
    cases firstStep_of_followLinks h with
    | here isHere behind =>
      obtain ⟨k, middle, hk, hleads⟩ := ihSteps behind
      exact ⟨k, middle, hk, .here isHere hleads⟩
    | up isUp behind =>
      obtain ⟨k, middle, hk, hleads⟩ := ihSteps behind
      exact ⟨k, middle, hk, .up isUp hleads⟩
    | enter isName found behind =>
      obtain ⟨k, middle, hk, hleads⟩ := ihSteps behind
      exact ⟨k, middle, hk, .enter isName found hleads⟩
    | @pass target l isName found isLinks _ behind =>
      -- first past the link, then on
      obtain ⟨k, middle, hk, hpassed⟩ := ih l (by omega) hne behind
      rw [hpassed.followLinks_append hk hne] at behind
      obtain ⟨j, last, hj, hleads⟩ := ih (l - k) (by omega) hrest behind
      exact ⟨k + j + 1, last, by omega, .link isName found hpassed hleads⟩
    | vacant _ _ last => exact absurd last hne
    | lock _ _ last => exact absurd last hne
    | file _ _ last => exact absurd last hne
    | stay _ _ last => exact absurd last hne

/-- What is found in a tree is found in every tree that it grows to. -/
theorem followLinks_grows {root' : Entries} (hgrows : Entries.Grows root root') {node : Node}
    (h : followLinks root followLast links dir steps w = .ok (.existing names node)) :
    ∃ node', followLinks root' followLast links dir steps w = .ok (.existing names node') ∧
      node'.mark = node.mark := by
  -- on the links left, and on the steps between two of them
  induction links using Nat.strongRecOn generalizing dir steps w with
  | _ links ih =>
  induction steps generalizing dir with
  | nil =>
    obtain ⟨es, hes, hplace⟩ := descend_of_followLinks_nil h
    obtain ⟨es', hes'⟩ := hgrows.keepsWays.descend hes
    cases hplace
    rw [followLinks_nil, hes']
    exact ⟨_, rfl, rfl⟩
  | cons step steps ihSteps =>
    cases firstStep_of_followLinks h with
    | here isHere behind =>
      subst isHere
      rw [followLinks_here]
      exact ihSteps behind
    | up isUp behind =>
      subst isUp
      rw [followLinks_up]
      exact ihSteps behind
    | vacant _ _ _ _ isPlace => cases isPlace
    | enter isName found behind =>
      obtain ⟨es', hes'⟩ := hgrows.keepsWays.descend (Entries.descend_eq_some_iff.mpr found)
      rw [followLinks_enter isName (Entries.descend_eq_some_iff.mp hes')]
      exact ihSteps behind
    | lock isName found last isPlace =>
      -- what is found keeps its mark, so the same case applies
      have found' := Entries.markAt_eq_locked_iff.mp
        (hgrows _ _ (Entries.markAt_eq_locked_iff.mpr found))
      cases isPlace
      rw [followLinks_locked isName found', if_pos last]
      exact ⟨_, rfl, rfl⟩
    | file isName found last bare isPlace =>
      have found' := Entries.markAt_eq_file_iff.mp
        (hgrows _ _ (Entries.markAt_eq_file_iff.mpr found))
      cases isPlace
      rw [followLinks_file isName found', if_pos ⟨last, by simp [bare]⟩]
      exact ⟨_, rfl, rfl⟩
    | stay isName found last bare stays isPlace =>
      cases isPlace
      rw [followLinks_link isName (hgrows.keepsWays.link found),
        if_pos ⟨last, by simp [bare], by simp [stays]⟩]
      exact ⟨_, rfl, rfl⟩
    | @pass target l isName found isLinks passes behind =>
      subst isLinks
      rw [followLinks_link isName (hgrows.keepsWays.link found), if_neg passes]
      exact ih l (by omega) behind

/-- A trail to a directory is found if it passes few enough links. -/
theorem Leads.followLinks (h : Leads root n dir steps names) (hlinks : n ≤ links) {es : Entries}
    (hes : root.descend names = some es) :
    Disk.followLinks root true links dir steps w = .ok (.existing names (.directory es)) := by
  induction h generalizing links w with
  | nil dir => rw [followLinks_nil, hes]
  | here isHere _ ih =>
    subst isHere
    rw [followLinks_here, ih hlinks hes]
  | up isUp _ ih =>
    subst isUp
    rw [followLinks_up, ih hlinks hes]
  | enter isName found _ ih => rw [followLinks_enter isName found, ih hlinks hes]
  | @link m k _ steps _ _ _ target isName found passed rest ihPassed ihRest =>
    obtain ⟨links, rfl⟩ : ∃ l, links = l + 1 := ⟨links - 1, by omega⟩
    rw [followLinks_link isName found, if_neg (by simp)]
    dsimp only
    -- the target of the last link is where the way ends
    by_cases hsteps : steps = []
    · subst hsteps
      cases rest
      rw [List.append_nil]
      exact ihPassed (by omega) hes
    · rw [passed.followLinks_append (by omega) hsteps]
      exact ihRest (by omega) hes

/-- A directory that is found has a trail. -/
theorem exists_leads_of_directory {es : Entries}
    (h : followLinks root followLast links dir steps w = .ok (.existing names (.directory es))) :
    (∃ k ≤ links, Leads root k dir steps names) ∧ root.descend names = some es := by
  induction links using Nat.strongRecOn generalizing dir steps w with
  | _ links ih =>
  rcases List.eq_nil_or_concat steps with rfl | ⟨steps, step, rfl⟩
  · obtain ⟨es', hes, hplace⟩ := descend_of_followLinks_nil h
    cases hplace
    exact ⟨⟨0, by omega, .nil _⟩, hes⟩
  rw [List.concat_eq_append] at h ⊢
  obtain ⟨k, middle, hk, hleads⟩ := exists_leads_of_followLinks (by simp) h
  rw [hleads.followLinks_append hk (by simp)] at h
  -- the last step is taken from the directory before it
  have hlast : (∃ l ≤ links - k, Leads root l middle [step] names) ∧
      root.descend names = some es := by
    cases firstStep_of_followLinks h with
    | here isHere behind =>
      obtain ⟨es', hes, hplace⟩ := descend_of_followLinks_nil behind
      cases hplace
      exact ⟨⟨0, by omega, .here isHere (.nil _)⟩, hes⟩
    | up isUp behind =>
      obtain ⟨es', hes, hplace⟩ := descend_of_followLinks_nil behind
      cases hplace
      exact ⟨⟨0, by omega, .up isUp (.nil _)⟩, hes⟩
    | enter isName found behind =>
      obtain ⟨es', hes, hplace⟩ := descend_of_followLinks_nil behind
      cases hplace
      exact ⟨⟨0, by omega, .enter isName found (.nil _)⟩, hes⟩
    | @pass target l isName found isLinks _ behind =>
      rw [List.append_nil] at behind
      obtain ⟨⟨j, hj, hpassed⟩, hes⟩ := ih l (by omega) behind
      exact ⟨⟨j + 0 + 1, by omega, .link isName found hpassed (.nil _)⟩, hes⟩
    | vacant _ _ _ _ isPlace => cases isPlace
    | lock _ _ _ isPlace => cases isPlace
    | file _ _ _ _ isPlace => cases isPlace
    | stay _ _ _ _ _ isPlace => cases isPlace
  obtain ⟨⟨l, hl, hstep⟩, hes⟩ := hlast
  exact ⟨⟨k + l, by omega, hleads.append hstep⟩, hes⟩

/-- Following steps finds a directory exactly if a trail leads there past no more links than the
limit. -/
theorem followLinks_eq_directory_iff {es : Entries} :
    followLinks root true links dir steps w = .ok (.existing names (.directory es)) ↔
      (∃ k ≤ links, Leads root k dir steps names) ∧ root.descend names = some es := by
  constructor
  · exact exists_leads_of_directory
  · rintro ⟨⟨k, hk, hleads⟩, hes⟩
    exact hleads.followLinks hk hes

/-- Where a directory is wanted, nothing else is found, but it may be locked. -/
theorem exists_directory_of_wanted {node : Node}
    (h : followLinks root followLast links dir steps true = .ok (.existing names node)) :
    ∃ es, node = .directory es ∨ node = .locked es := by
  -- on the links left, and on the steps between two of them
  induction links using Nat.strongRecOn generalizing dir steps with
  | _ links ih =>
  induction steps generalizing dir with
  | nil =>
    obtain ⟨es, -, hplace⟩ := descend_of_followLinks_nil h
    cases hplace
    exact ⟨es, .inl rfl⟩
  | cons step steps ihSteps =>
    cases firstStep_of_followLinks h with
    | here _ behind => exact ihSteps behind
    | up _ behind => exact ihSteps behind
    | enter _ _ behind => exact ihSteps behind
    | @pass target l _ _ isLinks _ behind => exact ih l (by omega) behind
    | vacant _ _ _ _ isPlace => cases isPlace
    | @lock es _ _ _ isPlace =>
      cases isPlace
      exact ⟨es, .inr rfl⟩
    | file _ _ _ bare => cases bare
    | stay _ _ _ bare => cases bare

end Searches

end NamingLint.Disk
