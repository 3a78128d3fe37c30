import NamingLint.Proofs.Path.Join

/-!
# NamingLint — paths and their components

What a path is made of: a root or a leading `.` at most at its start, then names and `..` only. The
path that is put together from such components has them again, so the directories above a path are
known by how many components they have.

* `Component.IsInner` — what every component but the first one is.
* `Component.steps` — the steps that a component stands for on a disk.

Main results:

* `components_shape` — the components of a path.
* `components_ofComponents`, `components_take` — the path of some components.
* `noDots_steps` — the steps of a path without its `.` are those of its components.
* `route_pathOf` — the route of the path that names are put together to.
-/

namespace NamingLint

/-- Pieces without separators are found again. -/
theorem Text.splitOn_intercalate {sep : Char} {ps : List Text} (hne : ps ≠ [])
    (h : ∀ p ∈ ps, sep ∉ p) : splitOn sep ([sep].intercalate ps) = ps := by
  induction ps with
  | nil => exact absurd rfl hne
  | cons p ps ih =>
    have hp : sep ∉ p := h p List.mem_cons_self
    -- the last part has no separator behind it
    cases ps with
    | nil => rw [List.intercalate_singleton, splitOn_of_not_mem hp]
    | cons q qs =>
      rw [List.intercalate_cons_cons, List.append_assoc, List.singleton_append, splitOn_append_cons,
        splitOn_of_not_mem hp, ih (by simp) fun r hr => h r (List.mem_cons_of_mem p hr)]
      rfl

/-- No piece holds a separator. -/
theorem Text.not_mem_of_mem_splitOn {sep : Char} {t p : Text} (h : p ∈ splitOn sep t) :
    sep ∉ p := by
  induction t generalizing p with
  | nil =>
    rw [splitOn, List.mem_singleton] at h
    simp [h]
  | cons c t ih =>
    by_cases hc : c = sep
    · subst hc
      rw [splitOn_cons_self] at h
      rcases List.mem_cons.mp h with rfl | h
      · simp
      · exact ih h
    · obtain ⟨q, qs, hs, hcons⟩ := splitOn_cons_of_ne hc t
      rw [hcons] at h
      rcases List.mem_cons.mp h with rfl | h
      · -- `c` is no separator and the rest of the part has none
        have hq : sep ∉ q := ih (hs ▸ List.mem_cons_self)
        simp [hq, Ne.symm hc]
      · exact ih (hs ▸ List.mem_cons_of_mem q h)

namespace Component

/-- Is this a component that can stand behind others: `..` or a name? -/
def IsInner : Component → Prop
  | up => True
  | name s => s.toList ≠ [] ∧ '/' ∉ s.toList ∧ s ≠ "." ∧ s ≠ ".."
  | _ => False

/-- The text of a component in a path. -/
def segment : Component → String
  | root => ""
  | here => "."
  | up => ".."
  | name s => s

/-- The steps that a component stands for. -/
def steps : Component → List String
  | up => [".."]
  | name s => [s]
  | _ => []

/-- What is read of a segment can stand anywhere in a path. -/
theorem isInner_of_ofSegment? {s : Text} (hs : '/' ∉ s) {c : Component}
    (h : ofSegment? s = some c) : c.IsInner := by
  unfold ofSegment? at h
  split at h
  · simp at h
  · rename_i hvoid
    split at h
    · cases h
      exact trivial
    · rename_i hup
      cases h
      have hne : s ≠ [] := fun h => hvoid (.inl h)
      have hhere : s ≠ ['.'] := fun h => hvoid (.inr h)
      -- the two names that have a meaning of their own were read before
      refine ⟨by simpa using hne, by simpa using hs, ?_, ?_⟩
      · exact fun h => hhere (by rw [← String.toList_ofList (l := s), h]; rfl)
      · exact fun h => hup (by rw [← String.toList_ofList (l := s), h]; rfl)

/-- The text of an inner component is one piece that stands for it. -/
theorem IsInner.segment {c : Component} (h : c.IsInner) :
    '/' ∉ c.segment.toList ∧ c.segment.toList ≠ [] ∧ c.segment.toList ≠ ['.'] ∧
      ofSegment? c.segment.toList = some c := by
  cases c with
  | root => exact h.elim
  | here => exact h.elim
  | up => decide
  | name s =>
    obtain ⟨hne, hslash, hhere, hup⟩ := h
    have hhere' : s.toList ≠ ['.'] := fun h => hhere (String.toList_injective h)
    have hup' : s.toList ≠ ['.', '.'] := fun h => hup (String.toList_injective h)
    refine ⟨hslash, hne, hhere', ?_⟩
    show ofSegment? s.toList = some (.name s)
    rw [ofSegment?, if_neg (by simp [hne, hhere']), if_neg hup', String.ofList_toList]

/-- Components that can stand anywhere are read back from their segments. -/
theorem filterMap_segments {cs : List Component} (h : ∀ c ∈ cs, c.IsInner) :
    (cs.map fun c => c.segment.toList).filterMap ofSegment? = cs := by
  induction cs with
  | nil => rfl
  | cons c cs ih =>
    have hc : c.IsInner := h c List.mem_cons_self
    rw [List.map_cons, List.filterMap_cons_some hc.segment.2.2.2,
      ih fun d hd => h d (List.mem_cons_of_mem c hd)]

end Component

namespace Path

/-! ## The shape of a path -/

/-- At most the first component of a path is the root or `.`; all others are inner ones. -/
theorem components_shape (p : Path) :
    ∃ (first : Option Component) (rest : List Component), p.components = first.toList ++ rest ∧
      (∀ c ∈ first, c = .root ∨ c = .here) ∧ ∀ c ∈ rest, c.IsInner := by
  refine ⟨(start p.text.toList).1, _, rfl, ?_, ?_⟩
  · unfold start
    split <;> simp
  · intro c hc
    obtain ⟨s, hs, hsegment⟩ := List.mem_filterMap.mp hc
    exact Component.isInner_of_ofSegment? (Text.not_mem_of_mem_splitOn hs) hsegment

/-- All components but the first can stand anywhere. -/
theorem isInner_of_getElem? {p : Path} {k : Nat} {c : Component}
    (h : p.components[k + 1]? = some c) : c.IsInner := by
  obtain ⟨first, rest, hcomponents, -, hrest⟩ := components_shape p
  rw [hcomponents] at h
  cases first with
  | none => exact hrest c (List.mem_of_getElem? h)
  | some d => exact hrest c (List.mem_of_getElem? (by simpa using h))

/-- What stands behind other components of a path is an inner component. -/
theorem isInner_of_append {p : Path} {cs : List Component} {c : Component} (hcs : cs ≠ [])
    (h : p.components = cs ++ [c]) : c.IsInner := by
  obtain ⟨first, rest, rfl⟩ := List.exists_cons_of_ne_nil hcs
  refine isInner_of_getElem? (p := p) (k := rest.length) ?_
  rw [h]
  simp

/-- The first component is read off the start, the others off the segments. -/
theorem components_of_start {p : Path} {first : Option Component} {body : Text}
    (h : start p.text.toList = (first, body)) :
    p.components = first.toList ++ (Text.splitOn '/' body).filterMap Component.ofSegment? := by
  unfold components
  rw [h]

/-- The text of components, with slashes between them. -/
def textOf (cs : List Component) : Text :=
  ['/'].intercalate (cs.map fun c => c.segment.toList)

/-- Components are written with slashes between them, the root alone aside. -/
theorem text_ofComponents {cs : List Component} (h : cs ≠ [.root]) :
    (ofComponents cs).text.toList = textOf cs := by
  unfold ofComponents
  split
  · -- the root alone is written as a slash
    exact absurd rfl h
  · rw [String.toList_intercalate, List.map_map]
    rfl

/-- Two components have a slash between them. -/
theorem textOf_cons_cons (c d : Component) (cs : List Component) :
    textOf (c :: d :: cs) = c.segment.toList ++ '/' :: textOf (d :: cs) := by
  unfold textOf
  rw [List.map_cons, List.map_cons, List.intercalate_cons_cons, List.append_assoc]
  rfl

/-- The components of a text that inner components are put together to. -/
theorem filterMap_splitOn_textOf {cs : List Component} (hne : cs ≠ [])
    (h : ∀ c ∈ cs, c.IsInner) :
    (Text.splitOn '/' (textOf cs)).filterMap Component.ofSegment? = cs := by
  have hslash : ∀ t ∈ cs.map fun c => c.segment.toList, '/' ∉ t := by
    intro t ht
    obtain ⟨c, hc, rfl⟩ := List.mem_map.mp ht
    exact (h c hc).segment.1
  rw [textOf, Text.splitOn_intercalate (by simpa using hne) hslash,
    Component.filterMap_segments h]

/-- Inner components are put together to a text that starts with neither the root nor `.`. -/
theorem start_textOf {c : Component} (cs : List Component) (hc : c.IsInner) :
    start (textOf (c :: cs)) = (none, textOf (c :: cs)) := by
  obtain ⟨hslash, hne, hhere, -⟩ := hc.segment
  obtain ⟨x, t, hx⟩ := List.exists_cons_of_ne_nil hne
  have hxslash : x ≠ '/' := fun h => hslash (by simp [hx, h])
  cases cs with
  | nil =>
    have htext : textOf [c] = c.segment.toList := by simp [textOf]
    rw [htext]
    exact start_of_other (by simp [hx, hxslash]) hhere fun rest h => hslash (by simp [h])
  | cons d ds =>
    rw [textOf_cons_cons, hx]
    refine start_of_other (by simp [hxslash]) (by simp) ?_
    rintro rest h
    -- the first piece would be a lone `.`
    rw [List.cons_append, List.cons.injEq] at h
    obtain ⟨rfl, h⟩ := h
    cases t with
    | nil => exact hhere hx
    | cons y t =>
      rw [List.cons_append, List.cons.injEq] at h
      exact hslash (by simp [hx, h.1])

/-- The path that is put together from components has these components. -/
theorem components_ofComponents {first : Option Component} {rest : List Component}
    (hfirst : ∀ c ∈ first, c = .root ∨ c = .here) (hrest : ∀ c ∈ rest, c.IsInner)
    (hne : first.toList ++ rest ≠ []) :
    (ofComponents (first.toList ++ rest)).components = first.toList ++ rest := by
  cases first with
  | none =>
    obtain ⟨c, cs, rfl⟩ := List.exists_cons_of_ne_nil hne
    have hc : c.IsInner := hrest c List.mem_cons_self
    have hroot : c :: cs ≠ [.root] := by
      rintro h
      cases h
      exact hc
    have htext := text_ofComponents hroot
    have hstart := start_textOf cs hc
    rw [← htext] at hstart
    show (ofComponents (c :: cs)).components = c :: cs
    rw [components_of_start hstart, htext, filterMap_splitOn_textOf (by simp) hrest]
    rfl
  | some d =>
    cases rest with
    | nil => rcases hfirst d rfl with rfl | rfl <;> rfl
    | cons c cs =>
      have htext : (ofComponents (d :: c :: cs)).text.toList = textOf (d :: c :: cs) :=
        text_ofComponents (by simp)
      rw [textOf_cons_cons] at htext
      show (ofComponents (d :: c :: cs)).components = d :: c :: cs
      rcases hfirst d rfl with rfl | rfl
      · -- the text of the root is empty, so the slash behind it comes first
        have hstart : start (ofComponents (.root :: c :: cs)).text.toList =
            (some .root, textOf (c :: cs)) := by
          rw [htext]
          rfl
        rw [components_of_start hstart, filterMap_splitOn_textOf (by simp) hrest]
        rfl
      · -- the slash behind a leading `.` is left and makes an empty piece
        have hstart : start (ofComponents (.here :: c :: cs)).text.toList =
            (some .here, '/' :: textOf (c :: cs)) := by
          rw [htext]
          rfl
        rw [components_of_start hstart, Text.splitOn_cons_self, List.filterMap_cons_none rfl,
          filterMap_splitOn_textOf (by simp) hrest]
        rfl

/-- The directory above a path has the components of the path up to some number. -/
theorem components_take (p : Path) {k : Nat} (hk : 0 < k) (hne : p.components ≠ []) :
    (ofComponents (p.components.take k)).components = p.components.take k := by
  obtain ⟨first, rest, hcomponents, hfirst, hrest⟩ := components_shape p
  rw [hcomponents] at hne ⊢
  have hinner : ∀ j, ∀ c ∈ rest.take j, c.IsInner := fun j c hc => hrest c (List.mem_of_mem_take hc)
  cases first with
  | none =>
    rw [Option.toList_none, List.nil_append] at hne ⊢
    have htake : rest.take k ≠ [] := by
      intro h
      rcases List.take_eq_nil_iff.mp h with h | h
      · omega
      · exact hne h
    have hparts := components_ofComponents hfirst (hinner k) htake
    rw [Option.toList_none, List.nil_append] at hparts
    exact hparts
  | some d =>
    -- the first component is always taken
    obtain ⟨k, rfl⟩ : ∃ j, k = j + 1 := ⟨k - 1, by omega⟩
    have hparts := components_ofComponents hfirst (hinner k) (by simp)
    rw [Option.toList_some, List.singleton_append] at hparts ⊢
    rw [List.take_succ_cons]
    exact hparts

/-- A start of a path is a path. -/
theorem components_take_ne_nil (p : Path) {k : Nat} (hk : 0 < k) (hne : p.components ≠ []) :
    (ofComponents (p.components.take k)).components ≠ [] := by
  rw [components_take p hk hne]
  intro h
  rcases List.take_eq_nil_iff.mp h with h | h
  · omega
  · exact hne h

end Path

/-! ## Routes -/

namespace Disk

/-- Steps without those that stay where they are. -/
def noDots (steps : List String) : List String :=
  steps.filter (· ≠ ".")

theorem noDots_append (ms ns : List String) : noDots (ms ++ ns) = noDots ms ++ noDots ns :=
  List.filter_append ms ns

theorem noDots_here (steps : List String) : noDots ("." :: steps) = noDots steps :=
  List.filter_cons_of_neg (by simp)

theorem noDots_cons {step : String} (h : step ≠ ".") (steps : List String) :
    noDots (step :: steps) = step :: noDots steps :=
  List.filter_cons_of_pos (by simpa using h)

/-- The last step that counts, and those before it. -/
theorem exists_of_noDots_concat {steps first : List String} {last : String}
    (h : noDots steps = first ++ [last]) :
    ∃ before behind, steps = before ++ last :: behind ∧ noDots before = first := by
  obtain ⟨before, rest, rfl, hbefore, hrest⟩ := List.filter_eq_append_iff.mp h
  obtain ⟨dots, behind, rfl, hdots, -, -⟩ := List.filter_eq_cons_iff.mp hrest
  refine ⟨before ++ dots, behind, by simp, ?_⟩
  have hnone : noDots dots = [] := List.filter_eq_nil_iff.mpr hdots
  rw [noDots_append, hnone, List.append_nil]
  exact hbefore

/-- Pieces and the components that they are have the same steps, but for `.`. -/
theorem noDots_map_ofList {ss : List Text} (h : ∀ s ∈ ss, s ≠ []) :
    noDots (ss.map String.ofList) = (ss.filterMap Component.ofSegment?).flatMap Component.steps := by
  induction ss with
  | nil => rfl
  | cons s ss ih =>
    have hs : s ≠ [] := h s List.mem_cons_self
    have hrest := ih fun t ht => h t (List.mem_cons_of_mem s ht)
    rw [List.map_cons]
    by_cases hhere : s = ['.']
    · subst hhere
      rw [List.filterMap_cons_none rfl]
      show noDots ("." :: _) = _
      rw [noDots_here, hrest]
    · have hstep : String.ofList s ≠ "." := fun h =>
        hhere (by rw [← String.toList_ofList (l := s), h]; rfl)
      rw [noDots_cons hstep, hrest]
      -- two dots and names are steps of their own
      by_cases hup : s = ['.', '.']
      · subst hup
        rfl
      · have hname : Component.ofSegment? s = some (.name (String.ofList s)) := by
          rw [Component.ofSegment?, if_neg (by simp [hs, hhere]), if_neg hup]
        rw [List.filterMap_cons_some hname]
        rfl

/-- The steps of a path are those of its components, but for `.`. -/
theorem noDots_steps (p : Path) :
    noDots (Route.ofText p.text.toList).steps = p.components.flatMap Component.steps := by
  show noDots ((Path.segments p.text.toList).map String.ofList) = _
  have hsegments : ∀ t : Text, ∀ s ∈ Path.segments t, s ≠ [] := by
    intro t s hs
    simpa using (List.mem_filter.mp hs).2
  rw [Path.components_eq, List.flatMap_append, ← noDots_map_ofList (hsegments _)]
  unfold Path.start
  split
  · -- an absolute path: the root is no step
    rename_i rest htext
    rw [htext]
    have hslash : Path.segments ('/' :: rest) = Path.segments rest :=
      Path.segments_append_slash [] rest
    rw [hslash]
    rfl
  · rename_i htext
    rw [htext]
    rfl
  · -- the leading `.` is a component without steps, and a step that does not count
    rename_i rest htext
    rw [htext]
    have hdot : Path.segments ('.' :: '/' :: rest) = ['.'] :: Path.segments rest :=
      Path.segments_append_slash ['.'] rest
    have hslash : Path.segments ('/' :: rest) = Path.segments rest :=
      Path.segments_append_slash [] rest
    rw [hdot, hslash, List.map_cons]
    exact noDots_here _
  · rfl

/-- A path starts at the root exactly if the root is its first component. -/
theorem isAbsolute_route (p : Path) :
    (Route.ofText p.text.toList).isAbsolute = decide (p.components.head? = some .root) := by
  show decide (p.text.toList.head? = some '/') = _
  rw [decide_eq_decide]
  -- what stands behind the start of a text is never the root
  have hinner : ∀ {t : Text}, (Path.start t).1 ≠ some .root →
      ((Path.start t).1.toList ++
        (Path.segments (Path.start t).2).filterMap Component.ofSegment?).head? ≠ some .root := by
    intro t hstart hhead
    cases hone : (Path.start t).1 with
    | some c =>
      rw [hone] at hstart hhead
      exact hstart hhead
    | none =>
      rw [hone] at hhead
      obtain ⟨s, hs, hsegment⟩ := List.mem_filterMap.mp (List.mem_of_head? hhead)
      have hslash := Text.not_mem_of_mem_splitOn (List.mem_of_mem_filter hs)
      exact Component.isInner_of_ofSegment? hslash hsegment
  rw [Path.components_eq]
  constructor
  · intro h
    obtain ⟨t, ht⟩ := List.head?_eq_some_iff.mp h
    rw [ht]
    rfl
  · intro h
    by_contra hslash
    refine hinner (t := p.text.toList) ?_ h
    unfold Path.start
    split
    · rename_i rest htext
      exact absurd (by rw [htext]; rfl) hslash
    · simp
    · simp
    · simp

/-- A step of a path is a piece of its text. -/
theorem mem_steps {t : Text} {step : String} (h : step ∈ (Route.ofText t).steps) :
    step.toList ≠ [] ∧ '/' ∉ step.toList ∧ step.toList ⊆ t := by
  obtain ⟨s, hs, rfl⟩ := List.mem_map.mp h
  obtain ⟨hpiece, hne⟩ := List.mem_filter.mp hs
  rw [String.toList_ofList]
  exact ⟨by simpa using hne, Text.not_mem_of_mem_splitOn hpiece, Text.subset_of_mem_splitOn hpiece⟩

/-- The route of the path that names are put together to. -/
theorem route_pathOf {names : List String} (h : ∀ n ∈ names, IsEntryName n)
    (hshort : isTooLong (pathOf names) = false) :
    ∃ endsInSlash, route (pathOf names) = .ok ⟨true, names, endsInSlash⟩ := by
  have htext : (pathOf names).text.toList = '/' :: ['/'].intercalate (names.map String.toList) := by
    rw [pathOf, String.toList_append, String.toList_intercalate]
    rfl
  -- a path with a zero in it would be refused
  have hzero : '\x00' ∉ (pathOf names).text.toList := by
    rw [htext]
    clear htext hshort
    induction names with
    | nil => decide
    | cons n names ih =>
      have hn : '\x00' ∉ n.toList := (h n List.mem_cons_self).no_zero
      have hrest := ih fun m hm => h m (List.mem_cons_of_mem n hm)
      cases names with
      | nil => simpa using hn
      | cons m names =>
        rw [List.map_cons, List.map_cons, List.intercalate_cons_cons]
        simp only [List.map_cons, List.mem_cons, not_or] at hrest
        simp [hn, hrest]
  have hsteps : (Route.ofText (pathOf names).text.toList).steps = names := by
    show (Path.segments (pathOf names).text.toList).map String.ofList = names
    have hslash : Path.segments ('/' :: ['/'].intercalate (names.map String.toList)) =
        Path.segments (['/'].intercalate (names.map String.toList)) :=
      Path.segments_append_slash [] _
    rw [htext, hslash]
    cases names with
    | nil => rfl
    | cons n names =>
      -- names hold no slash, so the path is cut at the slashes between them
      have hpieces : ∀ t ∈ (n :: names).map String.toList, '/' ∉ t ∧ t ≠ [] := by
        intro t ht
        obtain ⟨m, hm, rfl⟩ := List.mem_map.mp ht
        exact ⟨(h m hm).no_slash, (h m hm).ne_empty⟩
      rw [Path.segments, Text.splitOn_intercalate (by simp) fun t ht => (hpieces t ht).1,
        List.filter_eq_self.mpr fun t ht => by simpa using (hpieces t ht).2, List.map_map]
      exact (List.map_congr_left fun m _ => String.ofList_toList).trans (List.map_id _)
  have hroute : route (pathOf names) = .ok (Route.ofText (pathOf names).text.toList) :=
    route_eq_ok_iff.mpr ⟨by simp [htext], hzero, hshort, rfl⟩
  refine ⟨(Route.ofText (pathOf names).text.toList).endsInSlash, ?_⟩
  rw [hroute, Except.ok.injEq, Route.mk.injEq]
  refine ⟨?_, hsteps, rfl⟩
  show decide ((pathOf names).text.toList.head? = some '/') = true
  rw [htext]
  rfl

end Disk

end NamingLint
