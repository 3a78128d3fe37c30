import Mathlib.Data.List.Pairwise
import NamingLint.Proofs.Declaration.Segment

/-!
# NamingLint — parameters that are named like a modifier

The words that may stand before the name of a parameter are no reserved words, so a parameter can
have one of them as its name. Whether such a word is the name is decided by the character behind it
alone. With a blank there it is passed over as a modifier, also where no name follows, as in
`override = false`: then the segment declares nothing. This is the only way for a name to be lost.

* `MarkedSegment` — a segment whose name is followed by the end of the segment or by the mark of a
  type, of a default or of an optional parameter.
* `MarkedSegment.TakenForModifier` — the name is a modifier, and a blank stands behind it.

Main results:

* `MarkedSegment.startsWithModifier_iff` — which names are taken for modifiers.
* `exists_mem_listDeclarations_iff` — a list has what each of its segments declares, and at the
  place of the segment nothing else.
* `names_are_kept_unless_taken_for_modifiers` — what every such segment declares, alone and as a part
  of a list.
-/

namespace NamingLint

open Text

/-! ## Leads -/

/-- Of two leads, one behind the other is a lead. -/
theorem IsLead.append {a b : Text} (ha : IsLead a) (hb : IsLead b) : IsLead (a ++ b) := by
  induction ha with
  | nil => exact hb
  | rest _ ih =>
    rw [List.append_assoc]
    exact .rest ih
  | modifier hword hne hblanks _ ih =>
    rw [List.append_assoc, List.append_assoc]
    exact .modifier hword hne hblanks ih

/-! ## Segments -/

/-- The mark of a type, of an optional parameter, or of a default. -/
def isParameterMark (c : Char) : Bool :=
  [':', '?', '='].contains c

/-- A segment whose name is followed, behind blanks or none, by the end of the segment or by the mark
of a type, of a default or of an optional parameter. The name may be a modifier. -/
structure MarkedSegment where
  blanks : Text
  /-- Rest marks and modifiers. -/
  lead : Text
  name : Text
  /-- The blanks behind the name. -/
  gap : Text
  tail : Text
  isBlank_of_mem : ∀ c ∈ blanks, isBlank c = true
  isLead : IsLead lead
  isIdentifier : IsIdentifier name
  ne_this : name ≠ "this".toList
  isBlank_of_mem_gap : ∀ c ∈ gap, isBlank c = true
  tail_marked : tail.head?.all isParameterMark = true

namespace MarkedSegment

variable (s : MarkedSegment)

/-- The segment as it is written. -/
def text : Text :=
  s.blanks ++ s.lead ++ (s.name ++ (s.gap ++ s.tail))

/-- The name is a modifier, and a blank stands behind it. -/
def TakenForModifier : Prop :=
  String.ofList s.name ∈ parameterModifiers ∧ s.gap ≠ []

instance : Decidable s.TakenForModifier :=
  inferInstanceAs (Decidable (_ ∧ _))

/-- Neither a blank, nor an identifier, nor a rest mark stands at the tail. -/
theorem head?_tail :
    s.tail.head?.any isBlank = false ∧ s.tail.head?.any isIdent = false ∧
      s.tail.head? ≠ some '.' := by
  have hmarked := s.tail_marked
  cases htail : s.tail.head? with
  | none => simp
  | some c =>
    have hc : c = ':' ∨ c = '?' ∨ c = '=' := by simpa [htail, isParameterMark] using hmarked
    rcases hc with rfl | rfl | rfl <;> decide

theorem head?_gap_append :
    (s.gap ++ s.tail).head?.any isIdent = false ∧
      ((s.gap ++ s.tail).head?.any isBlank = true ↔ s.gap ≠ []) := by
  have hblanks := s.isBlank_of_mem_gap
  -- without a gap the tail decides, and a mark is neither a blank nor in a name
  cases hgap : s.gap with
  | nil => simp [s.head?_tail]
  | cons c gap =>
    have hc : isBlank c = true := hblanks c (by rw [hgap]; exact List.mem_cons_self)
    simp [hc, not_isIdent_of_isBlank hc]

/-- The name is passed over as a modifier exactly if it is one and a blank follows. -/
theorem startsWithModifier_iff :
    StartsWithModifier (s.name ++ (s.gap ++ s.tail)) ↔ s.TakenForModifier := by
  obtain ⟨hident, hblank⟩ := s.head?_gap_append
  rw [startsWithModifier_append s.isIdentifier hident, hblank, TakenForModifier]

/-- The name is found where it stands, whatever it is called. -/
theorem parameterName?_of_not_taken (h : ¬ s.TakenForModifier) :
    parameterName? s.text = some (size (s.blanks ++ s.lead), s.name) :=
  parameterName?_identifier s.isBlank_of_mem s.isLead s.isIdentifier s.ne_this
    s.head?_gap_append.1 (mt s.startsWithModifier_iff.mp h)

/-- A name that is taken for a modifier is one more part of the lead, and what follows it does not
start with a name. -/
theorem parameterName?_of_taken (h : s.TakenForModifier) : parameterName? s.text = none := by
  obtain ⟨hmodifier, hgap⟩ := h
  -- read again with the name as the last modifier of the lead: nothing is left for a name
  have hname : IsLead (s.name ++ s.gap) := by
    have hlead := IsLead.modifier hmodifier hgap s.isBlank_of_mem_gap .nil
    rwa [String.toList_ofList, List.append_nil] at hlead
  obtain ⟨hblank, hident, hdot⟩ := s.head?_tail
  have hnone : s.tail.takeWhile isIdent = [] :=
    takeWhile_append_of_stops (List.forall_mem_nil _) hident
  have hword : ¬ StartsWithModifier s.tail := by
    rintro ⟨hmem, -⟩
    rw [hnone] at hmem
    exact absurd hmem (by decide)
  have htext : s.text = s.blanks ++ (s.lead ++ (s.name ++ s.gap)) ++ s.tail := by
    simp only [text, List.append_assoc]
  rw [htext, parameterName?_append s.isBlank_of_mem (s.isLead.append hname) hblank hdot hword,
    if_pos (.inl hnone)]

end MarkedSegment

/-! ## Lists -/

/-- Of two segments of a list, one ends before the other starts. -/
theorem apart_of_mem_segments {list : Text} {s r : Segment} (hs : s ∈ segments list)
    (hr : r ∈ segments list) (hne : s ≠ r) :
    s.start + size s.text < r.start ∨ r.start + size r.text < s.start := by
  let Apart (s r : Segment) : Prop :=
    s.start + size s.text < r.start ∨ r.start + size r.text < s.start
  have hsymm : Std.Symm Apart := ⟨fun _ _ h => h.symm⟩
  have hapart : (segments list).Pairwise Apart := (pairwise_withStarts 0 _).imp Or.inl
  exact hapart.forall hs hr hne

/-- At a place inside a segment, a list has what the segment declares there and nothing else. -/
theorem exists_mem_listDeclarations_iff {t : Text} {l : ParameterList} {r : Segment}
    (hr : r ∈ segments (t.slice l.list)) {position : Nat} (hposition : position ≤ size r.text)
    (name : Text) :
    (∃ d ∈ listDeclarations t l, d.name = name ∧ d.offset = l.list.start + r.start + position) ↔
      parameterName? r.text = some (position, name) := by
  constructor
  · rintro ⟨d, hd, rfl, hoffset⟩
    obtain ⟨r', hr', hd⟩ := List.mem_filterMap.mp hd
    obtain ⟨⟨position', name⟩, hname, rfl⟩ := Option.map_eq_some_iff.mp hd
    have hinside := position_le_of_parameterName? hname
    dsimp only at hoffset
    -- two segments are too far apart to hold the same place
    have heq : r = r' := by
      by_contra hne
      rcases apart_of_mem_segments hr hr' hne with h | h <;> omega
    subst heq
    rw [hname, show position' = position by omega]
  · intro hname
    exact ⟨_, List.mem_filterMap.mpr ⟨r, hr, by rw [hname]; rfl⟩, rfl, rfl⟩

/-- A segment declares its name, at the place where it stands, exactly if the name is not taken for a
modifier. Otherwise it declares nothing at all. So the parameters of a list, whatever its other
segments are, have the name at this place exactly in the first case. -/
theorem names_are_kept_unless_taken_for_modifiers (s : MarkedSegment) :
    (¬ s.TakenForModifier →
      parameterName? s.text = some (size (s.blanks ++ s.lead), s.name)) ∧
    (s.TakenForModifier → parameterName? s.text = none) ∧
    ∀ (t : Text) (l : ParameterList), ∀ r ∈ segments (t.slice l.list), r.text = s.text →
      ((∃ d ∈ listDeclarations t l, d.name = s.name ∧
          d.offset = l.list.start + r.start + size (s.blanks ++ s.lead)) ↔
        ¬ s.TakenForModifier) := by
  refine ⟨s.parameterName?_of_not_taken, s.parameterName?_of_taken, ?_⟩
  intro t l r hr htext
  -- the place asked for is inside the segment, so only this segment can declare something there
  have hinside : size (s.blanks ++ s.lead) ≤ size r.text := by
    rw [htext, MarkedSegment.text, size_append _ (s.name ++ _)]
    exact Nat.le_add_right _ _
  rw [exists_mem_listDeclarations_iff hr hinside, htext]
  constructor
  · intro hname htaken
    rw [s.parameterName?_of_taken htaken] at hname
    cases hname
  · exact s.parameterName?_of_not_taken

/-- The segment `readonly override?: boolean` on a line of its own, in which `readonly` is a modifier
and `override` the name. -/
def optionalOverride : MarkedSegment where
  blanks := "\n  ".toList
  lead := "readonly".toList ++ (" ".toList ++ [])
  name := "override".toList
  gap := "".toList
  tail := "?: boolean".toList
  isBlank_of_mem := List.all_eq_true.mp (by decide)
  isLead := .modifier (by decide) (by decide) (List.all_eq_true.mp (by decide)) .nil
  isIdentifier := ⟨by decide, List.all_eq_true.mp (by decide)⟩
  ne_this := by decide
  isBlank_of_mem_gap := List.all_eq_true.mp (by decide)
  tail_marked := by decide

theorem optionalOverride_is_kept :
    ¬ optionalOverride.TakenForModifier ∧
    parameterName? "\n  readonly override?: boolean".toList = some (12, "override".toList) ∧
    ∃ d ∈ listDeclarations "f(a,\n  readonly override?: boolean) \x7b\x7d".toList
        ⟨⟨0, 35⟩, ⟨2, 34⟩⟩,
      d.name = "override".toList ∧ d.offset = 16 := by
  have hkept : ¬ optionalOverride.TakenForModifier := by decide
  obtain ⟨halone, -, hlist⟩ := names_are_kept_unless_taken_for_modifiers optionalOverride
  exact ⟨hkept, halone hkept,
    (hlist _ _ ⟨2, "\n  readonly override?: boolean".toList⟩ (by decide) (by decide)).mpr hkept⟩

/-- The segment `override = false`. -/
def overrideWithDefault : MarkedSegment where
  blanks := "".toList
  lead := []
  name := "override".toList
  gap := [' ']
  tail := "= false".toList
  isBlank_of_mem := List.all_eq_true.mp (by decide)
  isLead := .nil
  isIdentifier := ⟨by decide, List.all_eq_true.mp (by decide)⟩
  ne_this := by decide
  isBlank_of_mem_gap := List.all_eq_true.mp (by decide)
  tail_marked := by decide

/-- Before a default with a blank, the name `override` is lost, and a function with this parameter
has none. -/
theorem overrideWithDefault_is_lost :
    overrideWithDefault.text = "override = false".toList ∧
    parameterName? overrideWithDefault.text = none ∧
    (¬ ∀ s : MarkedSegment,
      parameterName? s.text = some (size (s.blanks ++ s.lead), s.name)) ∧
    Kind.parameters.detector.detect "function f(override = false) \x7b\x7d".toList = [] := by
  have hnone : parameterName? overrideWithDefault.text = none := by decide
  refine ⟨by decide, hnone, ?_, by decide⟩
  intro hall
  have hsome := hall overrideWithDefault
  rw [hnone] at hsome
  cases hsome

end NamingLint
