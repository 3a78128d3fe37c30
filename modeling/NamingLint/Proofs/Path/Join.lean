import NamingLint.Disk.Basic
import NamingLint.Proofs.Text.Lines

/-!
# NamingLint — paths below a path

A name put behind a path adds one component to it and one step to its route, however the path is
written: with a slash at its end or without, from the root or from the working directory.

* `IsEntryName` — what every name in a directory satisfies.
* `Path.below` — the path that some names lead to.

Main results:

* `components_join`, `components_below` — the components behind a path.
* `Disk.route_join`, `Disk.route_below` — the route behind a path.
* `Disk.isTooLong_below` — paths get longer, never shorter.
-/

namespace NamingLint

/-! ## Names -/

/-- A name that an entry of a directory can have. -/
structure IsEntryName (name : String) : Prop where
  ne_empty : name.toList ≠ []
  no_slash : '/' ∉ name.toList
  no_zero : '\x00' ∉ name.toList
  ne_here : name ≠ "."
  ne_up : name ≠ ".."
  short : name.utf8ByteSize ≤ Disk.longestName

instance (name : String) : Decidable (IsEntryName name) :=
  decidable_of_iff (name.toList ≠ [] ∧ '/' ∉ name.toList ∧ '\x00' ∉ name.toList ∧ name ≠ "." ∧
      name ≠ ".." ∧ name.utf8ByteSize ≤ Disk.longestName)
    ⟨fun ⟨h₁, h₂, h₃, h₄, h₅, h₆⟩ => ⟨h₁, h₂, h₃, h₄, h₅, h₆⟩,
      fun ⟨h₁, h₂, h₃, h₄, h₅, h₆⟩ => ⟨h₁, h₂, h₃, h₄, h₅, h₆⟩⟩

/-- The name of an entry is read as a name. -/
theorem Component.ofSegment?_name {n : String} (hn : IsEntryName n) :
    ofSegment? n.toList = some (.name n) := by
  have hhere : n.toList ≠ ['.'] := fun h => hn.ne_here (String.toList_injective h)
  have hup : n.toList ≠ ['.', '.'] := fun h => hn.ne_up (String.toList_injective h)
  rw [ofSegment?, if_neg (by simp [hn.ne_empty, hhere]), if_neg hup, String.ofList_toList]

/-! ## Segments -/

namespace Path

/-- What stands between slashes, where something does. -/
def segments (t : Text) : List Text :=
  (Text.splitOn '/' t).filter (· ≠ [])

@[simp] theorem segments_nil : segments [] = [] := rfl

theorem segments_append_slash (t u : Text) :
    segments (t ++ '/' :: u) = segments t ++ segments u := by
  rw [segments, Text.splitOn_append_cons, List.filter_append, segments, segments]

theorem segments_name {n : String} (hn : IsEntryName n) : segments n.toList = [n.toList] := by
  rw [segments, Text.splitOn_of_not_mem hn.no_slash]
  simp [hn.ne_empty]

/-- Segments that are empty stand for no component. -/
theorem filterMap_segments (t : Text) :
    (segments t).filterMap Component.ofSegment? =
      (Text.splitOn '/' t).filterMap Component.ofSegment? := by
  rw [segments, List.filterMap_filter]
  apply List.filterMap_congr
  intro s _
  by_cases hs : s = []
  · simp [hs, Component.ofSegment?]
  · simp [hs]

/-- Empty segments count for nothing. -/
theorem components_eq (p : Path) :
    p.components = (start p.text.toList).1.toList ++
      (segments (start p.text.toList).2).filterMap Component.ofSegment? := by
  rw [filterMap_segments]
  rfl

/-! ## Joining -/

/-- The text of a path with a slash at its end. -/
def withSlash (t : Text) : Text :=
  if t.getLast? = some '/' then t else t ++ ['/']

theorem withSlash_cons (c : Char) {t : Text} (ht : t ≠ []) :
    withSlash (c :: t) = c :: withSlash t := by
  obtain ⟨d, u, rfl⟩ := List.exists_cons_of_ne_nil ht
  rw [withSlash, withSlash, List.getLast?_cons_cons]
  split <;> rfl

theorem withSlash_eq_cons (c : Char) (t : Text) : ∃ x, withSlash (c :: t) = c :: x := by
  rw [withSlash]
  split
  · exact ⟨t, rfl⟩
  · exact ⟨t ++ ['/'], rfl⟩

/-- One slash is between the two, whether the first ends in one or not. -/
theorem segments_withSlash_append (t u : Text) :
    segments (withSlash t ++ u) = segments t ++ segments u := by
  rw [withSlash]
  split
  · rename_i hlast
    obtain ⟨s, rfl⟩ := List.getLast?_eq_some_iff.mp hlast
    rw [List.append_assoc, List.singleton_append, segments_append_slash, segments_append_slash,
      segments_nil, List.append_nil]
  · rw [List.append_assoc, List.singleton_append, segments_append_slash]

/-- A name is joined to a path behind one slash. -/
theorem text_join {p : Path} (hp : p.text.toList ≠ []) {n : String} (hn : IsEntryName n) :
    (p.join ⟨n⟩).text.toList = withSlash p.text.toList ++ n.toList := by
  -- a name with a slash in front would replace the path
  have hrelative : (⟨n⟩ : Path).isAbsolute = false := by
    obtain ⟨c, u, hcu⟩ := List.exists_cons_of_ne_nil hn.ne_empty
    have hc : c ≠ '/' := by
      rintro rfl
      exact hn.no_slash (by simp [hcu])
    simp [isAbsolute, hcu, hc]
  rw [join, hrelative, withSlash]
  cases hlast : p.text.toList.getLast? with
  | none => simp [hp] at hlast
  | some c =>
    by_cases hc : c = '/'
    · simp [hc]
    · simp [hc]

/-- A text that starts with neither the root nor a leading `.`. -/
theorem start_of_other {t : Text} (hroot : t.head? ≠ some '/') (hhere : t ≠ ['.'])
    (hdot : ∀ rest, t ≠ '.' :: '/' :: rest) : start t = (none, t) := by
  unfold start
  split
  · simp at hroot
  · exact absurd rfl hhere
  · exact absurd rfl (hdot _)
  · rfl

/-- What is put behind a path does not change how it starts. -/
theorem start_withSlash_append {t : Text} (ht : t ≠ []) (u : Text) :
    (start (withSlash t ++ u)).1 = (start t).1 ∧
      segments (start (withSlash t ++ u)).2 = segments (start t).2 ++ segments u := by
  obtain ⟨c, rest, rfl⟩ := List.exists_cons_of_ne_nil ht
  have hsegments := segments_withSlash_append (c :: rest) u
  by_cases hroot : c = '/'
  · -- the root alone has its slash already
    subst hroot
    rcases List.eq_nil_or_concat rest with rfl | ⟨s, d, rfl⟩
    · exact ⟨rfl, rfl⟩
    · rw [withSlash_cons _ (by simp)]
      exact ⟨rfl, segments_withSlash_append _ u⟩
  cases rest with
  | nil =>
    by_cases hhere : c = '.'
    · -- behind a lone `.`, the slash makes it a leading one
      subst hhere
      exact ⟨rfl, segments_append_slash [] u⟩
    · have hslash : withSlash [c] = [c, '/'] := by simp [withSlash, hroot]
      rw [hslash] at hsegments ⊢
      rw [start_of_other (by simp [hroot]) (by simp) (by simp [hhere]),
        start_of_other (by simp [hroot]) (by simp [hhere]) (by simp)]
      exact ⟨rfl, hsegments⟩
  | cons d rest =>
    obtain ⟨x, hx⟩ := withSlash_eq_cons d rest
    have hslash : withSlash (c :: d :: rest) = c :: d :: x := by
      rw [withSlash_cons c (by simp), hx]
    rw [hslash] at hsegments ⊢
    by_cases hdot : c = '.' ∧ d = '/'
    · obtain ⟨rfl, rfl⟩ := hdot
      refine ⟨rfl, ?_⟩
      show segments ('/' :: x ++ u) = segments ('/' :: rest) ++ segments u
      rw [← hx, segments_withSlash_append]
    · rw [start_of_other (by simp [hroot]) (by simp) (by simpa using hdot),
        start_of_other (by simp [hroot]) (by simp) (by simpa using hdot)]
      exact ⟨rfl, hsegments⟩

/-- A name put behind a path is one component more. -/
theorem components_join {p : Path} (hp : p.text.toList ≠ []) {n : String} (hn : IsEntryName n) :
    (p.join ⟨n⟩).components = p.components ++ [.name n] := by
  obtain ⟨hfirst, hsegments⟩ := start_withSlash_append hp n.toList
  rw [components_eq, components_eq, text_join hp hn, hfirst, hsegments, segments_name hn,
    List.filterMap_append, List.append_assoc]
  simp [Component.ofSegment?_name hn]

theorem text_join_ne_nil {p : Path} (hp : p.text.toList ≠ []) {n : String} (hn : IsEntryName n) :
    (p.join ⟨n⟩).text.toList ≠ [] := by
  rw [text_join hp hn]
  simp [hn.ne_empty]

/-! ## Paths below a path -/

/-- The path that some names lead to from `p`. -/
def below (p : Path) (names : List String) : Path :=
  names.foldl (fun q n => q.join ⟨n⟩) p

@[simp] theorem below_nil (p : Path) : p.below [] = p := rfl

@[simp] theorem below_cons (p : Path) (n : String) (ns : List String) :
    p.below (n :: ns) = (p.join ⟨n⟩).below ns := rfl

theorem below_append (p : Path) (ms ns : List String) :
    p.below (ms ++ ns) = (p.below ms).below ns :=
  List.foldl_append

/-- Going down a list of names adds them to the components. -/
theorem components_below {p : Path} (hp : p.text.toList ≠ []) {ns : List String}
    (hns : ∀ n ∈ ns, IsEntryName n) :
    (p.below ns).components = p.components ++ ns.map .name := by
  induction ns generalizing p with
  | nil => simp
  | cons n ns ih =>
    have hn : IsEntryName n := hns n List.mem_cons_self
    have hrest : ∀ m ∈ ns, IsEntryName m := fun m hm => hns m (List.mem_cons_of_mem n hm)
    rw [below_cons, ih (text_join_ne_nil hp hn) hrest, components_join hp hn, List.map_cons,
      List.append_assoc, List.singleton_append]

/-- Names that lead to the same components are the same. -/
theorem below_injective {p : Path} (hp : p.text.toList ≠ []) {ms ns : List String}
    (hms : ∀ m ∈ ms, IsEntryName m) (hns : ∀ n ∈ ns, IsEntryName n)
    (h : (p.below ms).components = (p.below ns).components) : ms = ns := by
  rw [components_below hp hms, components_below hp hns] at h
  exact List.map_injective_iff.mpr (fun m n => by simp) (List.append_cancel_left h)

/-- A path stands below another one if the names that lead to it start with those of the other. -/
theorem prefix_of_below {p : Path} (hp : p.text.toList ≠ []) {ms ns : List String}
    (hms : ∀ m ∈ ms, IsEntryName m) (hns : ∀ n ∈ ns, IsEntryName n)
    (h : (p.below ms).components <+: (p.below ns).components) : ms <+: ns := by
  rw [components_below hp hms, components_below hp hns, List.prefix_append_right_inj] at h
  exact (List.prefix_map_iff_of_injective fun m n => by simp).mp h

end Path

/-! ## Routes -/

/-- What a path starts with decides whether it is absolute. -/
theorem withSlash_head? {t : Text} (ht : t ≠ []) (u : Text) :
    (Path.withSlash t ++ u).head? = t.head? := by
  obtain ⟨c, rest, rfl⟩ := List.exists_cons_of_ne_nil ht
  obtain ⟨x, hx⟩ := Path.withSlash_eq_cons c rest
  rw [hx, List.cons_append, List.head?_cons, List.head?_cons]

/-- The route of a joined path takes one step more, and asks for no directory. -/
theorem Route.ofText_join {p : Path} (hp : p.text.toList ≠ []) {n : String} (hn : IsEntryName n) :
    Route.ofText (p.join ⟨n⟩).text.toList =
      ⟨(Route.ofText p.text.toList).isAbsolute, (Route.ofText p.text.toList).steps ++ [n],
        false⟩ := by
  have hsteps : Path.segments (Path.withSlash p.text.toList ++ n.toList) =
      Path.segments p.text.toList ++ [n.toList] := by
    rw [Path.segments_withSlash_append, Path.segments_name hn]
  -- a slash at the end would ask for a directory
  have hlast : (Path.withSlash p.text.toList ++ n.toList).getLast? ≠ some '/' := by
    rw [List.getLast?_append_of_ne_nil _ hn.ne_empty]
    intro h
    exact hn.no_slash (List.mem_of_getLast? h)
  rw [Path.text_join hp hn, Route.mk.injEq]
  refine ⟨?_, ?_, ?_⟩
  · simp only [Route.ofText, withSlash_head? hp]
  · show (Path.segments _).map String.ofList = (Path.segments _).map String.ofList ++ [n]
    rw [hsteps, List.map_append, List.map_singleton, String.ofList_toList]
  · simp only [Route.ofText, hlast, decide_false]

namespace Disk

/-- A path is accepted if it is not empty, has no zero character and is not too long. -/
theorem route_eq_ok_iff {p : Path} {r : Route} :
    route p = .ok r ↔ p.text.toList ≠ [] ∧ '\x00' ∉ p.text.toList ∧ isTooLong p = false ∧
      r = Route.ofText p.text.toList := by
  unfold route
  -- the checks in the order they are made
  by_cases hempty : p.text = ""
  · simp [hempty]
  · by_cases hzero : '\x00' ∈ p.text.toList
    · simp [hempty, hzero]
    · rw [if_neg hempty, if_neg (by simpa using hzero)]
      have hne : p.text.toList ≠ [] := by simpa using hempty
      cases isTooLong p with
      | true => simp
      | false =>
        rw [if_neg Bool.false_ne_true, Except.ok.injEq, eq_comm]
        exact ⟨fun h => ⟨hne, hzero, rfl, h⟩, fun h => h.2.2.2⟩

/-- A path that is too long is refused, and not because nothing is there. -/
theorem route_of_isTooLong {p : Path} (h : isTooLong p = true) :
    ∃ e, route p = .error e ∧ (p.text ≠ "" → e ≠ .notFound) := by
  unfold route
  rw [if_pos h]
  split
  · rename_i htext
    exact ⟨.notFound, rfl, fun hne => absurd htext hne⟩
  · split
    · exact ⟨.zeroInPath, rfl, by simp⟩
    · exact ⟨.nameTooLong, rfl, by simp⟩

/-- A name put behind a path is one step more on its route, if the path does not get too long. -/
theorem route_join {p : Path} {r : Route} (h : route p = .ok r) {n : String} (hn : IsEntryName n)
    (hshort : isTooLong (p.join ⟨n⟩) = false) :
    route (p.join ⟨n⟩) = .ok ⟨r.isAbsolute, r.steps ++ [n], false⟩ := by
  obtain ⟨hp, hzero, -, rfl⟩ := route_eq_ok_iff.mp h
  refine route_eq_ok_iff.mpr
    ⟨Path.text_join_ne_nil hp hn, ?_, hshort, (Route.ofText_join hp hn).symm⟩
  rw [Path.text_join hp hn, Path.withSlash]
  have hname := hn.no_zero
  split <;> simp [hzero, hname]

/-! ## Lengths -/

/-- A path does not get shorter by a name behind it. -/
theorem isTooLong_join {p : Path} (hp : p.text.toList ≠ []) {n : String} (hn : IsEntryName n)
    (h : isTooLong p = true) : isTooLong (p.join ⟨n⟩) = true := by
  have hsize : Text.size p.text.toList ≤ Text.size (p.join ⟨n⟩).text.toList := by
    rw [Path.text_join hp hn, Path.withSlash]
    split <;> simp only [Text.size_append] <;> omega
  unfold isTooLong at h ⊢
  rw [decide_eq_true_eq] at h ⊢
  omega

/-- What is below a path that is too long has a path that is too long. -/
theorem isTooLong_below {p : Path} (hp : p.text.toList ≠ []) {ns : List String}
    (hns : ∀ n ∈ ns, IsEntryName n) (h : isTooLong p = true) : isTooLong (p.below ns) = true := by
  induction ns generalizing p with
  | nil => exact h
  | cons n ns ih =>
    have hn : IsEntryName n := hns n List.mem_cons_self
    rw [Path.below_cons]
    exact ih (Path.text_join_ne_nil hp hn) (fun m hm => hns m (List.mem_cons_of_mem n hm))
      (isTooLong_join hp hn h)

/-- Names put behind a path are steps more on its route, if the path does not get too long. -/
theorem route_below {p : Path} {r : Route} (h : route p = .ok r) {ns : List String}
    (hns : ∀ n ∈ ns, IsEntryName n) (hshort : isTooLong (p.below ns) = false) :
    ∃ endsInSlash, route (p.below ns) = .ok ⟨r.isAbsolute, r.steps ++ ns, endsInSlash⟩ := by
  induction ns generalizing p r with
  | nil =>
    refine ⟨r.endsInSlash, ?_⟩
    rw [Path.below_nil, h, List.append_nil]
  | cons n ns ih =>
    obtain ⟨hn, hns⟩ := List.forall_mem_cons.mp hns
    rw [Path.below_cons] at hshort ⊢
    -- what is too long stays so further down
    have hjoin : isTooLong (p.join ⟨n⟩) = false := by
      rw [Bool.eq_false_iff]
      intro hlong
      have hne := Path.text_join_ne_nil (route_eq_ok_iff.mp h).1 hn
      rw [isTooLong_below hne hns hlong] at hshort
      cases hshort
    obtain ⟨w, hbelow⟩ := ih (route_join h hn hjoin) hns hshort
    exact ⟨w, by rw [hbelow, List.append_assoc, List.singleton_append]⟩

end Disk

end NamingLint
