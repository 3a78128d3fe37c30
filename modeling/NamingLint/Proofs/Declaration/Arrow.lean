import NamingLint.Proofs.Declaration.Ordered

/-!
# NamingLint — which arrow functions are seen

The parameter list of an arrow function is found by what stands behind it: a closing parenthesis, a
return type or none, and the arrow. What may be a return type goes on over parentheses. So where a
colon stands behind an earlier closing parenthesis, as in `c ? f() : (b) => 1`, the list of the arrow
function itself is taken for the return type of that one. This is the only way for a list to be lost.

* `IsReturnType` — what may stand between a closing parenthesis with its blanks and an arrow.
* `InReturnType` — at the end of a text, a return type may go on.

Main results:

* `exists_of_takes_arrow` — what a match that runs over a closing parenthesis looks like.
* `findsAt_arrow_iff` — which closing parentheses are found with the arrow behind them.
* `arrows_are_seen_unless_in_return_type` — for every arrow, whether its list is found, and the
  names of the list.
-/

namespace NamingLint

open Text

/-! ## Cuts -/

section Cuts

variable {p q a b : Text} {d : Char}

/-- A character that is not in the first part stands in the second. -/
theorem exists_cut_behind (h : p ++ d :: q = a ++ b) (hd : d ∉ a) :
    ∃ z, p = a ++ z ∧ b = z ++ d :: q := by
  rcases List.append_eq_append_iff.mp h with ⟨z, rfl, hz⟩ | ⟨z, hp, hb⟩
  · cases z with
    | nil => exact ⟨[], by simp, by simpa using hz.symm⟩
    | cons e z => simp [(List.cons.inj hz).1] at hd
  · exact ⟨z, hp, hb⟩

/-- A character that is not in the second part stands in the first. -/
theorem exists_cut_before (h : p ++ d :: q = a ++ b) (hd : d ∉ b) :
    ∃ z, a = p ++ d :: z ∧ q = z ++ b := by
  -- the cut is at or behind `d`, since `d` is not in what follows it
  rcases List.append_eq_append_iff.mp h with ⟨z, ha, hz⟩ | ⟨z, hp, hb⟩
  · cases z with
    | nil =>
      rw [← show d :: q = b from hz] at hd
      exact absurd List.mem_cons_self hd
    | cons e z =>
      obtain ⟨rfl, hq⟩ := List.cons.inj hz
      exact ⟨z, ha, hq⟩
  · simp [hb] at hd

end Cuts

/-! ## Arrows -/

/-- May the character stand in a return type before an arrow? -/
def isTypePart (c : Char) : Bool :=
  !(['=', ';', '\x7b', '\x7d', '\n'].contains c)

/-- A return type before an arrow, with its colon, or none. -/
def IsReturnType (type : Text) : Prop :=
  type = [] ∨ ∃ body, type = ':' :: body ∧ ∀ c ∈ body, isTypePart c = true

/-- A closing parenthesis, blanks and a colon stand before the end of the text, and all behind the
colon may be part of a return type. -/
def InReturnType (pre : Text) : Prop :=
  ∃ before blanks body, pre = before ++ ')' :: (blanks ++ ':' :: body) ∧
    (∀ c ∈ blanks, isBlank c = true) ∧ ∀ c ∈ body, isTypePart c = true

/-- Blanks without a line feed may be part of a return type. -/
theorem isTypePart_of_isBlank {c : Char} (hblank : isBlank c = true) (hfeed : c ≠ '\n') :
    isTypePart c = true := by
  have hmarks : ['=', ';', '\x7b', '\x7d'].all (fun d => !isBlank d) = true := by decide
  rw [isTypePart, Bool.not_eq_true', List.contains_eq_mem, decide_eq_false_iff_not]
  intro hmem
  have hmem : c ∈ ['=', ';', '\x7b', '\x7d'] ++ ['\n'] := hmem
  rcases List.mem_append.mp hmem with hmark | hmark
  · simpa [hblank] using List.all_eq_true.mp hmarks c hmark
  · exact hfeed (List.mem_singleton.mp hmark)

/-- Two texts are the same if the first equals sign behind them is the one of an arrow. -/
theorem eq_of_append_arrow {a a' b b' : Text} (ha : '=' ∉ a) (ha' : '=' ∉ a')
    (h : a ++ ("=>".toList ++ b) = a' ++ ("=>".toList ++ b')) : a = a' :=
  (append_cons_inj_of_first ha ha' h).1

/-- The match at a closing parenthesis that an arrow stands behind. -/
theorem find_arrowTailShape_of {blanks type : Text} (hblanks : ∀ c ∈ blanks, isBlank c = true)
    (htype : IsReturnType type) (previous : Option Char) (post : Text) :
    arrowTailShape.find previous (')' :: (blanks ++ (type ++ ("=>".toList ++ post)))) =
      some ⟨')' :: (blanks ++ (type ++ "=>".toList)), [], []⟩ := by
  -- the type starts with its colon and the arrow with an equals sign, so the blanks stop there
  have hend : (type ++ ("=>".toList ++ post)).head?.any isBlank = false := by
    rcases htype with rfl | ⟨body, rfl, -⟩ <;> rfl
  have hoptional : (Piece.optional (.ascription ['=', ';', '\x7b', '\x7d', '\n'])).take
      (type ++ ("=>".toList ++ post)) = some (type, "=>".toList ++ post) := by
    rcases htype with rfl | ⟨body, rfl, hbody⟩
    · rfl
    · have hstop : ("=>".toList ++ post).head?.any isTypePart = false := rfl
      have hascription : (Piece.ascription ['=', ';', '\x7b', '\x7d', '\n']).take
          (':' :: body ++ ("=>".toList ++ post)) = some (':' :: body, "=>".toList ++ post) :=
        Piece.take_andThen_of (show (Piece.char ':').take _ = some ([':'], _) from rfl)
          (Piece.take_many_append hbody hstop)
      simp only [Piece.optional, Piece.either, hascription]
  have hclose : (Piece.char ')').take (')' :: (blanks ++ (type ++ ("=>".toList ++ post)))) =
      some ([')'], blanks ++ (type ++ ("=>".toList ++ post))) := rfl
  exact Shape.find_ofPieces_of rfl
    (Piece.take_andThen_of hclose <| Piece.take_andThen_of (Piece.take_many_append hblanks hend) <|
      Piece.take_andThen_of hoptional <| Piece.take_word_append "=>" post) rfl rfl

/-- Every match is one of a closing parenthesis that an arrow stands behind. -/
theorem find_arrowTailShape {previous : Option Char} {t : Text} {m : Match}
    (h : arrowTailShape.find previous t = some m) :
    ∃ blanks type, (∀ c ∈ blanks, isBlank c = true) ∧ IsReturnType type ∧
      m.text = ')' :: (blanks ++ (type ++ "=>".toList)) := by
  obtain ⟨-, r₁, r₂, r₃, hlead, hname, htail⟩ := Shape.find_ofPieces h
  obtain ⟨close, s₁, rest, hclose, hrest, hparts⟩ := Piece.take_andThen hlead
  obtain ⟨blanks, s₂, tail, hblanks, htail', rfl⟩ := Piece.take_andThen hrest
  obtain ⟨type, s₃, arrow, htype, harrow, rfl⟩ := Piece.take_andThen htail'
  refine ⟨blanks, type, ?_, ?_, ?_⟩
  · rw [(Piece.take_many hblanks).1]
    exact fun c hc => List.mem_takeWhile_imp hc
  · -- the type may be left out
    rcases Piece.take_optional htype with htype | rfl
    · rw [Piece.ascription] at htype
      obtain ⟨colon, s₄, body, hcolon, hbody, rfl⟩ := Piece.take_andThen htype
      rw [Piece.take_char hcolon, (Piece.take_many hbody).1]
      exact .inr ⟨_, rfl, fun c hc => List.mem_takeWhile_imp hc⟩
    · exact .inl rfl
  · simp only [Piece.nothing, Option.some.injEq, Prod.mk.injEq] at hname htail
    rw [Match.text, ← hname.1, ← htail.1, hparts, Piece.take_char hclose, Piece.take_word harrow]
    simp

/-! ## Where an arrow is hidden -/

/-- A match that runs over a closing parenthesis has it in its return type. -/
theorem exists_of_takes_arrow {pre r : Text} {o : Occurrence}
    (ho : o ∈ occurrences arrowTailShape (pre ++ ')' :: r)) (h : o.Takes pre) :
    ∃ before lead type after, pre = before ++ lead ∧ r = type ++ ("=>".toList ++ after) ∧
      InReturnType lead ∧ (∀ c ∈ type, isTypePart c = true) ∧ o.start = size before ∧
      o.found.text = lead ++ ')' :: (type ++ "=>".toList) := by
  obtain ⟨before, x, y, after, rfl, hr, hx, hy, hstart, htext, hfind⟩ := h.exists_cut ho
  obtain ⟨blanks, type, hblanks, htype, hmatch⟩ := find_arrowTailShape hfind
  obtain ⟨c, x, rfl⟩ := List.exists_cons_of_ne_nil hx
  obtain ⟨d, y, rfl⟩ := List.exists_cons_of_ne_nil hy
  obtain ⟨rfl, rfl⟩ := List.cons.inj hr
  rw [htext] at hmatch ⊢
  obtain ⟨rfl, hcut⟩ := List.cons.inj hmatch
  -- no blank is a parenthesis, so the place is behind the blanks
  obtain ⟨z, rfl, hz⟩ := exists_cut_behind hcut (not_mem_of_all hblanks (by decide))
  rcases htype with rfl | ⟨body, rfl, hbody⟩
  · -- there is no parenthesis in the arrow
    have hmem : ')' ∈ "=>".toList := by
      rw [← List.nil_append "=>".toList, hz]
      simp
    exact absurd hmem (by decide)
  · -- it is behind the colon as well, and in front of the arrow
    obtain ⟨z, rfl, hbehind⟩ := exists_cut_behind (a := [':']) hz.symm (by decide)
    obtain ⟨type, rfl, rfl⟩ := exists_cut_before hbehind.symm (by decide)
    refine ⟨before, _, type, after, rfl, by simp, ⟨[], blanks, z, rfl, hblanks, ?_⟩, ?_, hstart, rfl⟩
    · exact fun c hc => hbody c (by simp [hc])
    · exact fun c hc => hbody c (by simp [hc])

section Arrow

variable {t pre blanks post : Text} (hblanks : ∀ c ∈ blanks, isBlank c = true)
  (ht : t = pre ++ ')' :: (blanks ++ ("=>".toList ++ post)))
include hblanks ht

/-- A return type that goes on before a closing parenthesis goes on up to the arrow behind it. -/
theorem exists_takes_of_inReturnType (hpre : InReturnType pre) (hfeed : '\n' ∉ blanks) :
    ∃ o ∈ occurrences arrowTailShape t, o.Takes pre := by
  obtain ⟨before, ws, body, rfl, hws, hbody⟩ := hpre
  -- the parenthesis and the blanks behind it may be part of the type too
  have htype : ∀ c ∈ body ++ ')' :: blanks, isTypePart c = true := by
    intro c hc
    rcases List.mem_append.mp hc with hc | hc
    · exact hbody c hc
    · rcases List.mem_cons.mp hc with rfl | hc
      · decide
      · exact isTypePart_of_isBlank (hblanks c hc) (fun h => hfeed (h ▸ hc))
  have hfind := find_arrowTailShape_of hws (.inr ⟨_, rfl, htype⟩) before.getLast? post
  have hsplit : t =
      before ++ ')' :: (ws ++ (':' :: (body ++ ')' :: blanks) ++ ("=>".toList ++ post))) := by
    rw [ht]
    simp
  rw [hsplit]
  rcases mem_occurrences_or_takes hfind (List.cons_ne_nil _ _) with hmem | ⟨o, ho, htakes⟩
  · refine ⟨_, hmem, ?_⟩
    apply Occurrence.takes_append (y := ')' :: (blanks ++ "=>".toList)) (by simp) (by simp) rfl
    simp [Match.text]
  · -- a match from still further on the left ends with the same arrow
    refine ⟨o, ho, ?_⟩
    obtain ⟨first, lead, type, after, rfl, hr, -, hpart, hstart, htext⟩ :=
      exists_of_takes_arrow ho htakes
    have hequals : '=' ∉ ws ++ ':' :: (body ++ ')' :: blanks) := by
      rw [List.mem_append, List.mem_cons, not_or, not_or]
      exact ⟨not_mem_of_all hws (by decide), by decide, not_mem_of_all htype (by decide)⟩
    have hsame : ws ++ ':' :: (body ++ ')' :: blanks) = type :=
      eq_of_append_arrow hequals (not_mem_of_all hpart (by decide)) (by simpa using hr)
    rw [List.append_assoc]
    apply Occurrence.takes_append (y := ')' :: (blanks ++ "=>".toList)) (by simp) (by simp) hstart
    rw [htext, ← hsame]
    simp

/-- A closing parenthesis before an arrow is hidden by a return type that goes on up to the arrow, and
by nothing else. A line feed before the arrow ends every return type. -/
theorem findsAt_arrow_iff :
    arrowTailShape.FindsAt t pre ↔ ¬ (InReturnType pre ∧ '\n' ∉ blanks) := by
  have hfind := find_arrowTailShape_of hblanks (.inl rfl) pre.getLast? post
  rw [List.nil_append] at hfind
  rw [ht, findsAt_iff hfind (List.cons_ne_nil _ _), not_iff_not]
  constructor
  · rintro ⟨o, ho, htakes⟩
    obtain ⟨before, lead, type, after, rfl, hr, hlead, htype, -, -⟩ :=
      exists_of_takes_arrow ho htakes
    -- the match ends at the first arrow, so the rest of its type is the blanks
    obtain rfl := eq_of_append_arrow (not_mem_of_all hblanks (by decide))
      (not_mem_of_all htype (by decide)) hr
    obtain ⟨first, ws, body, rfl, hws, hbody⟩ := hlead
    exact ⟨⟨before ++ first, ws, body, by simp, hws, hbody⟩, not_mem_of_all htype (by decide)⟩
  · rintro ⟨hpre, hfeed⟩
    exact exists_takes_of_inReturnType hblanks rfl hpre hfeed

end Arrow

/-! ## Every arrow -/

/-- The list of an arrow is among the lists exactly if its closing parenthesis is found. -/
theorem exists_mem_arrowLists_iff {t pre : Text} {opened : Nat}
    (hopened : openingParen t (size pre) = some opened) :
    (∃ l ∈ arrowLists t, l.list = ⟨opened + 1, size pre⟩) ↔ arrowTailShape.FindsAt t pre := by
  constructor
  · rintro ⟨l, hl, hlist⟩
    obtain ⟨o, ho, hl⟩ := List.mem_filterMap.mp hl
    obtain ⟨_, -, rfl⟩ := Option.map_eq_some_iff.mp hl
    exact ⟨o, ho, (Span.mk.inj hlist).2⟩
  · rintro ⟨o, ho, hstart⟩
    refine ⟨⟨⟨opened, o.stop⟩, ⟨opened + 1, o.start⟩⟩, List.mem_filterMap.mpr ⟨o, ho, ?_⟩, ?_⟩
    · rw [hstart, hopened]
      rfl
    · rw [hstart]

/-- Every name of a parameter list is a parameter of the text, at the place where it stands. -/
theorem exists_parameter_of_list {t : Text} {l : ParameterList} (hl : l ∈ parameterLists t)
    {s : Segment} (hs : s ∈ segments (t.slice l.list)) {position : Nat} {name : Text}
    (hname : parameterName? s.text = some (position, name)) :
    ∃ d ∈ parameterDeclarations t, d.name = name ∧ d.offset = l.list.start + s.start + position := by
  have hmem : ⟨name, shownWith t (t.slice l.head) (l.list.start + s.start + position),
      l.list.start + s.start + position⟩ ∈ listDeclarations t l :=
    List.mem_filterMap.mpr ⟨s, hs, by rw [hname]; rfl⟩
  exact Declaration.exists_same_of_mem (fun _ => wholeIn_of_mem_parameterMatches)
    (List.mem_append_left _ (List.mem_flatMap.mpr ⟨l, hl, hmem⟩))

/-- Wherever a closing parenthesis stands before an arrow and has its partner, the list between them
is found exactly if no return type of an earlier parenthesis may go on up to the arrow. Then every
name of the list is a parameter of the text, at the place where it stands. -/
theorem arrows_are_seen_unless_in_return_type {t pre blanks post : Text} {opened : Nat}
    (ht : t = pre ++ ')' :: (blanks ++ ("=>".toList ++ post)))
    (hblanks : ∀ c ∈ blanks, isBlank c = true)
    (hopened : openingParen t (size pre) = some opened) :
    ((∃ l ∈ arrowLists t, l.list = ⟨opened + 1, size pre⟩) ↔
      ¬ (InReturnType pre ∧ '\n' ∉ blanks)) ∧
    (¬ (InReturnType pre ∧ '\n' ∉ blanks) →
      ∀ s ∈ segments (t.slice ⟨opened + 1, size pre⟩), ∀ position name,
        parameterName? s.text = some (position, name) →
        ∃ d ∈ Kind.parameters.detector.detect t,
          d.name = name ∧ d.offset = opened + 1 + s.start + position) := by
  have hiff := (exists_mem_arrowLists_iff hopened).trans (findsAt_arrow_iff hblanks ht)
  refine ⟨hiff, ?_⟩
  intro hseen s hs position name hname
  obtain ⟨l, hl, hlist⟩ := hiff.mpr hseen
  rw [← hlist] at hs
  obtain ⟨d, hd, hsame, hoffset⟩ := exists_parameter_of_list (List.mem_append_right _ hl) hs hname
  rw [hlist] at hoffset
  exact ⟨d, hd, hsame, hoffset⟩

/-- A return type stands behind a closing parenthesis. -/
theorem not_inReturnType_of_not_mem {pre : Text} (h : ')' ∉ pre) : ¬ InReturnType pre := by
  rintro ⟨before, blanks, body, rfl, -, -⟩
  simp at h

/-- The second parameter of a callback, which has a type of its own. -/
theorem callback_parameter_is_seen :
    ¬ InReturnType "m(g, (a, b: T".toList ∧
    ∃ d ∈ Kind.parameters.detector.detect "m(g, (a, b: T) => a);".toList,
      d.name = "b".toList ∧ d.offset = 9 := by
  have hpre : ¬ InReturnType "m(g, (a, b: T".toList := not_inReturnType_of_not_mem (by decide)
  have ht : "m(g, (a, b: T) => a);".toList =
      "m(g, (a, b: T".toList ++ ')' :: (" ".toList ++ ("=>".toList ++ " a);".toList)) := by decide
  have hopened :
      openingParen "m(g, (a, b: T) => a);".toList (size "m(g, (a, b: T".toList) = some 5 := by
    decide
  exact ⟨hpre, (arrows_are_seen_unless_in_return_type ht (List.all_eq_true.mp (by decide)) hopened).2
    (fun h => hpre h.1) ⟨2, " b: T".toList⟩ (by decide) 1 "b".toList (by decide)⟩

/-- Behind a call and a colon, the parameter of an arrow function is not among the parameters. -/
theorem conditional_arrow_is_missed :
    "c ? f() : (b) => 1".toList =
      "c ? f() : (b".toList ++ ')' :: (" ".toList ++ ("=>".toList ++ " 1".toList)) ∧
    openingParen "c ? f() : (b) => 1".toList (size "c ? f() : (b".toList) = some 10 ∧
    segments (slice "c ? f() : (b) => 1".toList ⟨11, size "c ? f() : (b".toList⟩) =
      [⟨0, "b".toList⟩] ∧
    parameterName? "b".toList = some (0, "b".toList) ∧
    ¬ ∃ d ∈ Kind.parameters.detector.detect "c ? f() : (b) => 1".toList,
      d.name = "b".toList ∧ d.offset = 11 := by
  exact ⟨by decide, by decide, by decide, by decide, by decide⟩

end NamingLint
