import Mathlib.Data.List.Induction
import NamingLint.Proofs.Declaration.Property

/-!
# NamingLint — which assignments are found

A match of an assignment takes one character more than its equals sign. Where that character is the
first one of another assignment, as in `this.a=this.b=1`, the search goes on behind it and passes the
other assignment over. That one no longer hides anything, so the next in the row is found again: of
assignments written one right behind the other, every second one is lost. Nothing else hides an
assignment.

* `assignmentStart` — an assignment up to and with its equals sign.
* `IsAssignmentStart`, `EndsInAssignment` — a text is one, or ends in one.

Main results:

* `IsAssignmentStart.eq_of_append` — a text ends in one of them at most.
* `exists_chain` — the assignments right before a place.
* `findsAt_chain_iff` — what is found in a row of assignments.
* `assignments_are_found_unless_chained` — for every assignment, whether it is found.
-/

namespace NamingLint

open Text

/-! ## Assignments -/

/-- An assignment to a member of `this`, up to and with its equals sign. -/
def assignmentStart (name blanks : Text) : Text :=
  "this.".toList ++ (name ++ (blanks ++ ['=']))

/-- The text is an assignment up to and with its equals sign. -/
def IsAssignmentStart (a : Text) : Prop :=
  ∃ name blanks, IsIdentifier name ∧ (∀ c ∈ blanks, isBlank c = true) ∧
    a = assignmentStart name blanks

/-- The text ends with the start of an assignment, which begins where no word goes on. -/
def EndsInAssignment (pre : Text) : Prop :=
  ∃ before a, pre = before ++ a ∧ before.getLast?.any isWord = false ∧ IsAssignmentStart a

/-- The match of an assignment, with the character behind the equals sign. -/
def assignmentMatch (name blanks : Text) (c : Char) : Match :=
  ⟨"this.".toList, name, blanks ++ ['=', c]⟩

theorem assignmentStart_eq (name blanks : Text) :
    assignmentStart name blanks = "this.".toList ++ (name ++ blanks) ++ ['='] := by
  show "this.".toList ++ (name ++ (blanks ++ ['='])) = _
  simp

theorem assignmentStart_ne_nil (name blanks r : Text) : assignmentStart name blanks ++ r ≠ [] := by
  simp [assignmentStart_eq]

/-- The match goes one character beyond the equals sign. -/
theorem text_assignmentMatch (name blanks : Text) (c : Char) :
    (assignmentMatch name blanks c).text = assignmentStart name blanks ++ [c] := by
  show "this.".toList ++ name ++ (blanks ++ ['=', c]) = _
  simp [assignmentStart_eq]

theorem getLast?_assignmentStart (before name blanks : Text) :
    (before ++ assignmentStart name blanks).getLast? = some '=' := by
  rw [assignmentStart_eq, ← List.append_assoc, List.getLast?_concat]

section Parts

variable {name blanks : Text} (hname : IsIdentifier name) (hblanks : ∀ c ∈ blanks, isBlank c = true)
include hname hblanks

/-- A character that is neither part of an identifier nor blank stands in no name and in no blanks. -/
theorem not_mem_name_blanks {c : Char} (hident : isIdent c = false) (hblank : isBlank c = false) :
    c ∉ name ++ blanks := by
  intro hc
  rcases List.mem_append.mp hc with hc | hc
  · exact hname.not_mem hident hc
  · exact not_mem_of_all hblanks hblank hc

theorem equals_not_mem_assignment : '=' ∉ "this.".toList ++ (name ++ blanks) := by
  rw [List.mem_append, not_or]
  exact ⟨by decide, not_mem_name_blanks hname hblanks (by decide) (by decide)⟩

/-- The match at the start of an assignment. -/
theorem find_assignmentShape_of {previous : Option Char} (hprevious : previous.any isWord = false)
    {c : Char} (hequal : c ≠ '=') (harrow : c ≠ '>') (post : Text) :
    assignmentShape.find previous (assignmentStart name blanks ++ c :: post) =
      some (assignmentMatch name blanks c) := by
  -- blanks or the equals sign end the name, and the equals sign ends the blanks
  have hstop : (blanks ++ '=' :: c :: post).head?.any isIdent = false := by
    refine any_head?_append ?_ rfl
    cases blanks with
    | nil => rfl
    | cons d b => exact not_isIdent_of_isBlank (hblanks d List.mem_cons_self)
  have htext : assignmentStart name blanks ++ c :: post =
      "this.".toList ++ (name ++ (blanks ++ '=' :: c :: post)) := by
    simp [assignmentStart_eq]
  have hlast : (Piece.seq [.char '=', .one fun c => c ≠ '=' && c ≠ '>']).take ('=' :: c :: post) =
      some (['=', c], post) := by
    simp [Piece.seq, Piece.andThen, Piece.char, Piece.one, hequal, harrow]
  have hstart : Shape.atWordStart previous = true := by rw [Shape.atWordStart, hprevious]; rfl
  rw [htext]
  exact Shape.find_ofPieces_of hstart (Piece.take_word_append "this." _)
    (Piece.take_many1_append hname.ne_nil hname.all_ident hstop)
    (Piece.take_andThen_of (Piece.take_many_append hblanks rfl) hlast)

end Parts

/-- Every match is one of an assignment. -/
theorem find_assignmentShape {previous : Option Char} {t : Text} {m : Match}
    (h : assignmentShape.find previous t = some m) :
    previous.any isWord = false ∧ ∃ name blanks c, IsIdentifier name ∧
      (∀ c ∈ blanks, isBlank c = true) ∧ m = assignmentMatch name blanks c := by
  obtain ⟨hstart, r₁, r₂, r₃, hlead, hname, htail⟩ := Shape.find_ofPieces h
  -- the tail is blanks, an equals sign and one character more
  obtain ⟨blanks, r₄, b, hblanks, hrest, hparts⟩ := Piece.take_andThen htail
  obtain ⟨equals, r₅, last, hequals, hlast, rfl⟩ := Piece.take_andThen hrest
  obtain ⟨c, -, rfl⟩ := Piece.take_one hlast
  obtain rfl := Piece.take_char hequals
  refine ⟨by simpa [Shape.atWordStart] using hstart, m.name, blanks, c,
    (Piece.take_identifier hname).1, ?_, Match.ext (Piece.take_word hlead) rfl hparts⟩
  rw [(Piece.take_many hblanks).1]
  exact fun c hc => List.mem_takeWhile_imp hc

/-! ## Where an assignment is hidden -/

/-- There is one dot in the start of an assignment, so no other one is inside of it. -/
theorem eq_nil_of_append_this {x u v : Text} (hv : '.' ∉ v)
    (h : x ++ ("this.".toList ++ u) = "this.".toList ++ v) : x = [] := by
  have hdot : "this".toList ++ '.' :: v = (x ++ "this".toList) ++ '.' :: u := by simpa using h.symm
  obtain ⟨hthis, -⟩ := (List.append_cons_inj_of_notMem (by decide) hv).mp hdot
  simpa using hthis

theorem dot_not_mem_rest {name blanks : Text} (hname : IsIdentifier name)
    (hblanks : ∀ c ∈ blanks, isBlank c = true) : '.' ∉ name ++ (blanks ++ ['=']) := by
  have hdot := not_mem_name_blanks hname hblanks (c := '.') (by decide) (by decide)
  simpa using hdot

/-- A text ends in the start of one assignment at most. -/
theorem IsAssignmentStart.eq_of_append {a a' before before' : Text} (ha : IsAssignmentStart a)
    (ha' : IsAssignmentStart a') (h : before ++ a = before' ++ a') : before = before' := by
  obtain ⟨name, blanks, hname, hblanks, rfl⟩ := ha
  obtain ⟨name', blanks', hname', hblanks', rfl⟩ := ha'
  rcases List.append_eq_append_iff.mp h with ⟨x, rfl, hx⟩ | ⟨x, rfl, hx⟩
  · rw [eq_nil_of_append_this (dot_not_mem_rest hname hblanks) hx.symm, List.append_nil]
  · rw [eq_nil_of_append_this (dot_not_mem_rest hname' hblanks') hx.symm, List.append_nil]

/-- A match that takes the place of an assignment takes its first character only. -/
theorem exists_of_takes_assignment {pre name blanks r : Text} (hname : IsIdentifier name)
    (hblanks : ∀ c ∈ blanks, isBlank c = true) {o : Occurrence}
    (ho : o ∈ occurrences assignmentShape (pre ++ (assignmentStart name blanks ++ r)))
    (h : o.Takes pre) :
    ∃ before a, pre = before ++ a ∧ before.getLast?.any isWord = false ∧ IsAssignmentStart a ∧
      o.start = size before := by
  obtain ⟨before, x, y, after, rfl, hr, hx, hy, hstart, htext, hfind⟩ := h.exists_cut ho
  obtain ⟨hbefore, n, b, d, hn, hb, hmatch⟩ := find_assignmentShape hfind
  rw [hmatch, text_assignmentMatch] at htext
  obtain ⟨y, e, rfl⟩ := (List.eq_nil_or_concat y).resolve_left hy
  rw [List.concat_eq_append, ← List.append_assoc] at htext
  obtain ⟨htext, -⟩ := List.append_inj' htext rfl
  rcases List.eq_nil_or_concat y with rfl | ⟨z, f, rfl⟩
  · refine ⟨before, x, rfl, hbefore, ⟨n, b, hn, hb, ?_⟩, hstart⟩
    rw [htext, List.append_nil]
  · -- else both equals signs are the same, and one assignment is inside of the other
    exfalso
    have hends : "this.".toList ++ (n ++ b) ++ ['='] = x ++ z ++ [f] := by
      simpa [assignmentStart_eq] using htext
    obtain ⟨hsplit, hequals⟩ := List.append_inj' hends rfl
    obtain rfl : '=' = f := by simpa using hequals
    clear hends
    have hz : '=' ∉ z := by
      intro hmem
      have hmem : '=' ∈ x ++ z := List.mem_append_right x hmem
      rw [← hsplit] at hmem
      exact equals_not_mem_assignment hn hb hmem
    have hcut : "this.".toList ++ (name ++ blanks) ++ '=' :: r = z ++ '=' :: (e :: after) := by
      simpa [assignmentStart_eq] using hr
    obtain ⟨rfl, -⟩ := append_cons_inj_of_first (equals_not_mem_assignment hname hblanks) hz hcut
    exact hx (eq_nil_of_append_this (not_mem_name_blanks hn hb (by decide) (by decide)) hsplit.symm)

/-! ## Assignments in a row -/

/-- The assignments that stand one right behind the other up to a place. -/
theorem exists_chain {pre : Text} (hpre : pre.getLast?.any isWord = false) :
    ∃ (before : Text) (leads : List Text), pre = before ++ leads.flatten ∧
      (∀ a ∈ leads, IsAssignmentStart a) ∧ before.getLast?.any isWord = false ∧
      ¬ EndsInAssignment before := by
  -- on the length: the row is followed back from its last assignment
  induction hlength : pre.length using Nat.strong_induction_on generalizing pre with
  | _ n ih =>
    by_cases hends : EndsInAssignment pre
    · obtain ⟨before, a, rfl, hbefore, ha⟩ := hends
      have hlt : before.length < n := by
        obtain ⟨name, blanks, -, -, rfl⟩ := ha
        rw [← hlength, assignmentStart_eq]
        simp
      obtain ⟨first, leads, rfl, hleads, hfirst, hnone⟩ := ih _ hlt hbefore rfl
      refine ⟨first, leads ++ [a], by simp, ?_, hfirst, hnone⟩
      intro a' ha'
      rcases List.mem_append.mp ha' with ha' | ha'
      · exact hleads a' ha'
      · rw [List.mem_singleton.mp ha']
        exact ha
    · exact ⟨pre, [], by simp, by simp, hpre, hends⟩

/-- Behind a chain of assignments a word may start. -/
theorem chain_apart {before : Text} {leads : List Text} (hbefore : before.getLast?.any isWord = false)
    (hleads : ∀ a ∈ leads, IsAssignmentStart a) :
    (before ++ leads.flatten).getLast?.any isWord = false := by
  rcases List.eq_nil_or_concat leads with rfl | ⟨leads, a, rfl⟩
  · -- without assignments what stands before decides
    simpa using hbefore
  · obtain ⟨name, blanks, -, -, rfl⟩ := hleads a (by simp)
    rw [List.concat_eq_append, List.flatten_concat, ← List.append_assoc, getLast?_assignmentStart]
    decide

section Row

variable {name blanks post : Text} {c : Char} (hname : IsIdentifier name)
  (hblanks : ∀ c ∈ blanks, isBlank c = true) (hequal : c ≠ '=') (harrow : c ≠ '>')
include hname hblanks hequal harrow

/-- An assignment is hidden by one right before it that is found, and by nothing else. -/
theorem findsAt_assignment_iff {pre t : Text} (hpre : pre.getLast?.any isWord = false)
    (ht : t = pre ++ (assignmentStart name blanks ++ c :: post)) :
    assignmentShape.FindsAt t pre ↔
      ¬ ∃ before a, pre = before ++ a ∧ before.getLast?.any isWord = false ∧ IsAssignmentStart a ∧
        assignmentShape.FindsAt t before := by
  subst ht
  have hfind := find_assignmentShape_of hname hblanks hpre hequal harrow post
  rw [findsAt_iff hfind (assignmentStart_ne_nil _ _ _), not_iff_not]
  constructor
  · rintro ⟨o, ho, htakes⟩
    obtain ⟨before, a, rfl, hbefore, ha, hstart⟩ := exists_of_takes_assignment hname hblanks ho htakes
    exact ⟨before, a, rfl, hbefore, ha, o, ho, hstart⟩
  · rintro ⟨before, a, rfl, hbefore, ⟨n, b, hn, hb, rfl⟩, hfinds⟩
    -- the one before is matched with the first character of this one
    obtain ⟨rest, hrest⟩ : ∃ rest, assignmentStart name blanks ++ c :: post = 't' :: rest := ⟨_, rfl⟩
    rw [hrest, List.append_assoc] at hfinds ⊢
    have hother := find_assignmentShape_of hn hb hbefore (c := 't') (by decide) (by decide) rest
    have hmem := mem_of_findsAt hother (assignmentStart_ne_nil _ _ _) hfinds
    exact ⟨_, hmem, Occurrence.takes_append (by simp [assignmentStart_eq]) (List.cons_ne_nil 't' [])
      rfl (text_assignmentMatch n b 't')⟩

/-- Right behind an assignment another one is found exactly if that one is not. -/
theorem findsAt_behind_iff {p a t : Text} (hp : p.getLast?.any isWord = false)
    (ha : IsAssignmentStart a) (ht : t = p ++ a ++ (assignmentStart name blanks ++ c :: post)) :
    assignmentShape.FindsAt t (p ++ a) ↔ ¬ assignmentShape.FindsAt t p := by
  have hpre : (p ++ a).getLast?.any isWord = false := by
    obtain ⟨n, b, -, -, rfl⟩ := ha
    rw [getLast?_assignmentStart]
    decide
  rw [findsAt_assignment_iff hname hblanks hequal harrow hpre ht, not_iff_not]
  constructor
  · rintro ⟨before, a', hcut, -, ha', hfinds⟩
    rwa [ha.eq_of_append ha' hcut]
  · intro hfinds
    exact ⟨p, a, rfl, hp, ha, hfinds⟩

/-- In a row of assignments, the one behind an even number of others is found. -/
theorem findsAt_chain_iff {before t : Text} {leads : List Text}
    (hbefore : before.getLast?.any isWord = false) (hfirst : ¬ EndsInAssignment before)
    (hleads : ∀ a ∈ leads, IsAssignmentStart a)
    (ht : t = before ++ leads.flatten ++ (assignmentStart name blanks ++ c :: post)) :
    assignmentShape.FindsAt t (before ++ leads.flatten) ↔ leads.length % 2 = 0 := by
  -- from the last one back: it hides the one behind it if it is found itself
  induction leads using List.reverseRecOn generalizing name blanks c post with
  | nil =>
    rw [List.flatten_nil, List.append_nil] at ht ⊢
    rw [findsAt_assignment_iff hname hblanks hequal harrow hbefore ht]
    simp only [List.length_nil, Nat.zero_mod, iff_true]
    rintro ⟨b, a, hcut, hb, ha, -⟩
    exact hfirst ⟨b, a, hcut, hb, ha⟩
  | append_singleton leads a ih =>
    have ha : IsAssignmentStart a := hleads a (by simp)
    have hrest : ∀ a ∈ leads, IsAssignmentStart a := fun a ha => hleads a (by simp [ha])
    have hflatten : before ++ (leads ++ [a]).flatten = before ++ leads.flatten ++ a := by simp
    rw [hflatten] at ht ⊢
    rw [findsAt_behind_iff hname hblanks hequal harrow (chain_apart hbefore hrest) ha ht]
    -- the character behind the equals sign of the last one is the first one of this
    obtain ⟨n, b, hn, hb, rfl⟩ := ha
    have ht : t = before ++ leads.flatten ++ (assignmentStart n b ++ 't' ::
        ("his.".toList ++ (name ++ (blanks ++ ['='])) ++ c :: post)) := by
      rw [ht, List.append_assoc]
      rfl
    rw [ih hn hb (by decide) (by decide) hrest ht, List.length_append, List.length_singleton]
    omega

end Row

/-! ## Every assignment -/

/-- An assignment is found exactly if an even number of assignments stand right before it, one right
behind the other. So the name that is assigned to is a property of the text, wherever it stands, if
no assignment ends with its equals sign right before it, and whenever the number is even. -/
theorem assignments_are_found_unless_chained {t pre name blanks post : Text} {c : Char}
    (ht : t = pre ++ (assignmentStart name blanks ++ c :: post))
    (hpre : pre.getLast?.any isWord = false) (hname : IsIdentifier name)
    (hblanks : ∀ c ∈ blanks, isBlank c = true) (hequal : c ≠ '=') (harrow : c ≠ '>') :
    (¬ EndsInAssignment pre → name ∈ (Kind.properties.detector.detect t).map (·.name)) ∧
    ∃ (before : Text) (leads : List Text), pre = before ++ leads.flatten ∧
      (∀ a ∈ leads, IsAssignmentStart a) ∧ before.getLast?.any isWord = false ∧
      ¬ EndsInAssignment before ∧
      (assignmentShape.FindsAt t pre ↔ leads.length % 2 = 0) ∧
      (leads.length % 2 = 0 → name ∈ (Kind.properties.detector.detect t).map (·.name)) := by
  have hfind := find_assignmentShape_of hname hblanks hpre hequal harrow post
  -- an assignment that is found gives its name to the text
  have hnamed : assignmentShape.FindsAt t pre →
      name ∈ (Kind.properties.detector.detect t).map (·.name) := by
    intro hfinds
    rw [ht] at hfinds ⊢
    have hmem : Declaration.ofOccurrence ⟨size pre, assignmentMatch name blanks c⟩ ∈
        declarationsOf assignmentShape (pre ++ (assignmentStart name blanks ++ c :: post)) :=
      List.mem_map_of_mem (mem_of_findsAt hfind (assignmentStart_ne_nil _ _ _) hfinds)
    exact mem_names_properties.mpr (List.mem_map.mpr ⟨_, List.mem_append_right _ hmem, rfl⟩)
  constructor
  · intro hends
    apply hnamed
    rw [findsAt_assignment_iff hname hblanks hequal harrow hpre ht]
    rintro ⟨before, a, hcut, hbefore, ha, -⟩
    exact hends ⟨before, a, hcut, hbefore, ha⟩
  · obtain ⟨before, leads, rfl, hleads, hbefore, hfirst⟩ := exists_chain hpre
    have hiff := findsAt_chain_iff hname hblanks hequal harrow hbefore hfirst hleads ht
    exact ⟨before, leads, rfl, hleads, hbefore, hfirst, hiff, fun heven => hnamed (hiff.mpr heven)⟩

/-- Two assignments with a blank before the second, which is then found. -/
theorem spaced_assignment_is_found :
    ¬ EndsInAssignment "this.a = ".toList ∧
      "b".toList ∈ (Kind.properties.detector.detect "this.a = this.b = 1;".toList).map (·.name) := by
  have hends : ¬ EndsInAssignment "this.a = ".toList := by
    rintro ⟨before, a, hcut, -, name, blanks, -, -, rfl⟩
    have hlast := congrArg List.getLast? hcut
    rw [getLast?_assignmentStart] at hlast
    exact absurd hlast (by decide)
  have ht : "this.a = this.b = 1;".toList =
      "this.a = ".toList ++ (assignmentStart "b".toList " ".toList ++ ' ' :: "1;".toList) := by decide
  exact ⟨hends, (assignments_are_found_unless_chained ht (by decide)
    ⟨by decide, List.all_eq_true.mp (by decide)⟩ (List.all_eq_true.mp (by decide)) (by decide)
    (by decide)).1 hends⟩

/-- The second of two assignments without a blank is an assignment as well, and its name is not among
the properties. -/
theorem chained_assignment_is_missed :
    "this.a=this.b=1;".toList = "this.a=".toList ++ (assignmentStart "b".toList [] ++ "1;".toList) ∧
    "this.a=".toList.getLast?.any isWord = false ∧ IsIdentifier "b".toList ∧
    "b".toList ∉ (Kind.properties.detector.detect "this.a=this.b=1;".toList).map (·.name) := by
  exact ⟨by decide, by decide, ⟨by decide, List.all_eq_true.mp (by decide)⟩, by decide⟩

end NamingLint
