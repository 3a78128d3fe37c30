import Mathlib.Data.List.TakeWhile
import NamingLint.Proofs.Declaration.Border
import NamingLint.Declaration.Parameter

/-!
# NamingLint — where parameters stand

A parameter list lies between the two parentheses of a head, its segments lie in the list, and the
name of a parameter lies in its segment. All offsets are sizes of prefixes, so they add up to the
place of the name in the text. Parentheses, commas, blanks and rest marks are the borders on the way,
so no identifier runs over into the name.

* `ParameterList.StandsIn` — the spans of a list cut a text at its parentheses.

Main results:

* `intercalate_cutAtCommas`, `exists_of_mem_segments` — segments are parts of the list.
* `parameterName?_spec` — the name of a segment stands at its position.
* `standsIn_of_mem_parameterLists` — every list that is found lies between parentheses.
* `exists_of_mem_listDeclarations` — so every parameter has its place in the text, between borders.
* `standsIn_of_mem_listDeclarations` — and stands in it.
-/

namespace NamingLint

open Text

/-! ## Parentheses -/

/-- The parenthesis found is a closing one, at its offset. -/
theorem closingParenFrom_spec {depth : Int} {offset closed : Nat} {t : Text}
    (h : closingParenFrom depth offset t = some closed) :
    ∃ a b, t = a ++ ')' :: b ∧ closed = offset + size a := by
  induction t generalizing depth offset with
  | nil => simp [closingParenFrom] at h
  | cons c t ih =>
    -- a step over `c` moves the offset by its size
    have hnext : ∀ d : Int, closingParenFrom d (offset + c.utf8Size) t = some closed →
        ∃ a b, c :: t = a ++ ')' :: b ∧ closed = offset + size a := by
      intro d hd
      obtain ⟨a, b, ht, hclosed⟩ := ih hd
      exact ⟨c :: a, b, by rw [ht, List.cons_append], by rw [hclosed, size_cons, Nat.add_assoc]⟩
    rw [closingParenFrom] at h
    split at h
    · exact hnext _ h
    · split at h
      · rename_i hc
        split at h
        · rw [Option.some.injEq] at h
          exact ⟨[], t, by rw [hc, List.nil_append], by simp [h]⟩
        · exact hnext _ h
      · exact hnext _ h

/-- The partner of an opening parenthesis stands behind it. -/
theorem closingParen_spec {pre post : Text} {closed : Nat}
    (h : closingParen (pre ++ '(' :: post) (size pre) = some closed) :
    ∃ list after, post = list ++ ')' :: after ∧ closed = size pre + 1 + size list := by
  rw [closingParen, dropBytes_size, closingParenFrom, if_pos rfl] at h
  exact closingParenFrom_spec h

/-- The parenthesis found is an opening one, at its offset. -/
theorem openingParenFrom_spec {depth opened : Nat} {r : Text}
    (h : openingParenFrom depth (size r) r = some opened) :
    ∃ b a, r = b ++ '(' :: a ∧ opened = size a := by
  induction r generalizing depth with
  | nil => simp [openingParenFrom] at h
  | cons c r ih =>
    have hoffset : size (c :: r) - c.utf8Size = size r := by simp
    -- three of the four branches go on, at some depth
    have hnext : ∀ d, openingParenFrom d (size (c :: r) - c.utf8Size) r = some opened →
        ∃ b a, c :: r = b ++ '(' :: a ∧ opened = size a := by
      intro d hd
      rw [hoffset] at hd
      obtain ⟨b, a, hr, hopened⟩ := ih hd
      exact ⟨c :: b, a, by rw [hr, List.cons_append], hopened⟩
    rw [openingParenFrom] at h
    split at h
    · exact hnext _ h
    · split at h
      · rename_i hc
        split at h
        · rw [Option.some.injEq, hoffset] at h
          exact ⟨[], r, by rw [hc, List.nil_append], h.symm⟩
        · exact hnext _ h
      · exact hnext _ h

theorem size_reverse (t : Text) : size t.reverse = size t := by
  induction t with
  | nil => rfl
  | cons c t ih => simp [ih, Nat.add_comm]

/-- The search for the partner of a closing parenthesis runs back over what stands before it. -/
theorem openingParen_size (pre post : Text) :
    openingParen (pre ++ ')' :: post) (size pre) = openingParenFrom 1 (size pre) pre.reverse := by
  have hsize : size pre + 1 = size (pre ++ [')']) := by rw [size_append]; rfl
  have hcut : takeBytes (size pre + 1) (pre ++ ')' :: post) = pre ++ [')'] := by
    rw [hsize, List.append_cons pre _ post, takeBytes_size]
  rw [openingParen, hcut, List.reverse_concat, openingParenFrom, if_pos rfl]
  rfl

/-- The partner of a closing parenthesis stands in front of it. -/
theorem openingParen_spec {pre post : Text} {opened : Nat}
    (h : openingParen (pre ++ ')' :: post) (size pre) = some opened) :
    ∃ before list, pre = before ++ '(' :: list ∧ opened = size before := by
  rw [openingParen_size, ← size_reverse] at h
  obtain ⟨b, a, hr, hopened⟩ := openingParenFrom_spec h
  refine ⟨a.reverse, b.reverse, ?_, by rw [hopened, size_reverse]⟩
  rw [← List.reverse_reverse pre, hr]
  simp

/-! ## Segments -/

theorem cutAtCommas_ne_nil (depth : Nat) (previous : Option Char) (t : Text) :
    cutAtCommas depth previous t ≠ [] := by
  cases t with
  | nil => simp [cutAtCommas]
  | cons c t =>
    rw [cutAtCommas]
    split
    · simp
    · split <;> simp

/-- Where nothing is cut, a character joins the first part. -/
theorem cutAtCommas_cons {depth : Nat} {c : Char} (h : ¬(c = ',' ∧ depth = 0))
    (previous : Option Char) (t : Text) :
    ∃ s ss, cutAtCommas (depthAfter depth previous c) (some c) t = s :: ss ∧
      cutAtCommas depth previous (c :: t) = (c :: s) :: ss := by
  obtain ⟨s, ss, hcut⟩ :=
    List.exists_cons_of_ne_nil (cutAtCommas_ne_nil (depthAfter depth previous c) (some c) t)
  refine ⟨s, ss, hcut, ?_⟩
  rw [cutAtCommas, if_neg h, hcut]

/-- Cutting loses nothing but the commas. -/
theorem intercalate_cutAtCommas (depth : Nat) (previous : Option Char) (t : Text) :
    [','].intercalate (cutAtCommas depth previous t) = t := by
  induction t generalizing depth previous with
  | nil => simp [cutAtCommas]
  | cons c t ih =>
    rw [cutAtCommas]
    split
    · rename_i hc
      rw [List.intercalate_cons_of_ne_nil (cutAtCommas_ne_nil _ _ _), ih, hc.1]
      rfl
    · -- `c` goes in front of the first part
      obtain ⟨s, ss, hs⟩ :=
        List.exists_cons_of_ne_nil (cutAtCommas_ne_nil (depthAfter depth previous c) (some c) t)
      have ih := ih (depthAfter depth previous c) (some c)
      rw [hs] at ih
      simp only [hs, List.intercalate_cons_cons_left, ih]

/-- A part stands in the joined text at the offset given for it, between commas. -/
theorem exists_of_mem_withStarts {start : Nat} {ps : List Text} {s : Segment}
    (h : s ∈ withStarts start ps) :
    ∃ a b, [','].intercalate ps = a ++ s.text ++ b ∧ s.start = start + size a ∧
      EndsApart [] a ∧ b.head?.any isIdent = false := by
  induction ps generalizing start with
  | nil => simp [withStarts] at h
  | cons p ps ih =>
    rw [withStarts] at h
    rcases List.mem_cons.mp h with rfl | h
    · cases ps with
      | nil => exact ⟨[], [], by simp, by simp, .nil, rfl⟩
      | cons q qs =>
        exact ⟨[], ',' :: [','].intercalate (q :: qs), by simp, by simp, .nil, rfl⟩
    · -- a later part has the first one and a comma before it
      obtain ⟨a, b, hjoin, hstart, ha, hb⟩ := ih h
      have hps : ps ≠ [] := by
        rintro rfl
        simp [withStarts] at h
      have hcomma : EndsApart [] (p ++ [',']) :=
        (endsApart_of_false rfl).append_left (List.cons_ne_nil _ _) p
      refine ⟨p ++ [','] ++ a, b, ?_, ?_, hcomma.append ha, hb⟩
      · rw [List.intercalate_cons_of_ne_nil hps, hjoin]
        simp
      · have hone : ','.utf8Size = 1 := rfl
        rw [hstart, size_append, size_append, size_cons, size_nil, hone]
        omega

/-- A segment stands in its list at its offset, between commas. -/
theorem exists_of_mem_segments {list : Text} {s : Segment} (h : s ∈ segments list) :
    ∃ a b, list = a ++ s.text ++ b ∧ s.start = size a ∧ EndsApart [] a ∧
      b.head?.any isIdent = false := by
  obtain ⟨a, b, hjoin, hstart, hborders⟩ := exists_of_mem_withStarts h
  rw [intercalate_cutAtCommas] at hjoin
  exact ⟨a, b, hjoin, by omega, hborders⟩

/-! ## Names -/

/-- What is passed over ends in a rest mark or in blanks. -/
theorem skipParameterModifiers_spec (fuel : Nat) (t : Text) :
    ∃ a, a ++ skipParameterModifiers fuel t = t ∧ EndsApart [] a := by
  induction fuel generalizing t with
  | zero => exact ⟨[], rfl, .nil⟩
  | succ fuel ih =>
    -- one more thing that is passed over
    have hstep : ∀ {p : Piece} {taken rest : Text}, p.take t = some (taken, rest) →
        EndsApart [] taken → ∃ a, a ++ skipParameterModifiers fuel rest = t ∧ EndsApart [] a := by
      intro p taken rest h htaken
      obtain ⟨a, ha, hapart⟩ := ih rest
      refine ⟨taken ++ a, ?_, htaken.append hapart⟩
      rw [List.append_assoc, ha, p.append_eq h]
    rw [skipParameterModifiers]
    split
    · rename_i taken rest h
      exact hstep h (by rw [Piece.take_word h]; exact endsApart_of_false (by decide))
    · split
      · exact ⟨[], rfl, .nil⟩
      · rename_i taken rest h
        split
        · exact hstep h ((Piece.blanks1_separates.after .identifier).endsApart h)
        · exact ⟨[], rfl, .nil⟩

/-- The name of a segment stands in it at the position given, as a whole. -/
theorem parameterName?_spec {segment name : Text} {position : Nat}
    (h : parameterName? segment = some (position, name)) :
    IsIdentifier name ∧ ∃ a b, segment = a ++ name ++ b ∧ position = size a ∧
      EndsApart [] a ∧ b.head?.any isIdent = false := by
  simp only [parameterName?] at h
  obtain ⟨a, ha, hapart⟩ := skipParameterModifiers_spec segment.length (trimStart segment)
  -- all that matters of the modifiers is that they end apart from the name
  generalize skipParameterModifiers segment.length (trimStart segment) = rest at h ha
  split at h
  · simp at h
  · rename_i hname
    simp only [Option.some.injEq, Prod.mk.injEq] at h
    obtain ⟨rfl, rfl⟩ := h
    have hsegment : segment.takeWhile isBlank ++ a ++ rest = segment := by
      rw [List.append_assoc, ha, trimStart, List.takeWhile_append_dropWhile]
    have hblank : EndsApart [] (segment.takeWhile isBlank) :=
      endsApart_of_forall fun c hc => not_isIdent_of_isBlank (List.mem_takeWhile_imp hc)
    refine ⟨⟨fun hnil => hname (.inl hnil), fun c hc => List.mem_takeWhile_imp hc⟩,
      segment.takeWhile isBlank ++ a, rest.dropWhile isIdent, ?_, ?_, hblank.append hapart,
      any_head?_dropWhile isIdent rest⟩
    · rw [List.append_assoc, List.takeWhile_append_dropWhile, hsegment]
    · conv_lhs => rw [← hsegment]
      rw [size_append _ rest, Nat.add_sub_cancel]

/-! ## What is shown with a parameter -/

/-- The line around a name holds the name, with what stands right before and right after it. -/
theorem lineAround_spec {name : Text} (hn : IsIdentifier name) (pre post : Text) :
    ∃ x a b y, pre = x ++ a ∧ post = b ++ y ∧
      lineAround (pre ++ name ++ post) (size pre) = a ++ name ++ b := by
  -- the name has no line feed, so its line goes beyond it on both sides
  have hword : ∀ c ∈ name, (decide (c ≠ '\n')) = true := by
    intro c hc
    rw [decide_eq_true_eq]
    rintro rfl
    exact hn.feed_not_mem hc
  obtain ⟨x, hx⟩ : pre.reverse.takeWhile (· ≠ '\n') <+: pre.reverse := List.takeWhile_prefix _
  obtain ⟨y, hy⟩ : post.takeWhile (· ≠ '\n') <+: post := List.takeWhile_prefix _
  refine ⟨x.reverse, (pre.reverse.takeWhile (· ≠ '\n')).reverse, post.takeWhile (· ≠ '\n'), y,
    ?_, hy.symm, ?_⟩
  · rw [← List.reverse_append, hx, List.reverse_reverse]
  · rw [lineAround, List.append_assoc, takeBytes_size, dropBytes_size,
      List.takeWhile_append_of_pos hword, List.append_assoc]

/-! ## Lists -/

/-- What opens a parameter list ends with its parenthesis. -/
theorem Piece.take_openList {t a r : Text} (h : Piece.openList.take t = some (a, r)) :
    ∃ x, a = x ++ ['('] := by
  simp only [Piece.openList, Piece.seq] at h
  obtain ⟨a₁, r₁, b₁, -, h₁, rfl⟩ := Piece.take_andThen h
  obtain ⟨a₂, r₂, b₂, -, h₂, rfl⟩ := Piece.take_andThen h₁
  obtain ⟨a₃, r₃, b₃, -, h₃, rfl⟩ := Piece.take_andThen h₂
  rw [Piece.take_char h₃]
  exact ⟨a₁ ++ (a₂ ++ a₃), by simp⟩

namespace ParameterList

/-- The list lies between two parentheses of `t`, and the head shown with it reaches from some place
before the first to some place after the second. -/
def StandsIn (l : ParameterList) (t : Text) : Prop :=
  ∃ before lead list tail after,
    t = before ++ (lead ++ '(' :: (list ++ ')' :: tail) ++ after) ∧
    l.head = ⟨size before, size before + size (lead ++ '(' :: (list ++ ')' :: tail))⟩ ∧
    l.list = ⟨size (before ++ lead) + 1, size (before ++ lead) + 1 + size list⟩

/-- The characters of the two spans of a list, which lies between parentheses. -/
theorem StandsIn.slices {l : ParameterList} {t : Text} (h : l.StandsIn t) :
    ∃ before lead tail after, t = before ++ (t.slice l.head ++ after) ∧
      t.slice l.head = lead ++ ['('] ++ (t.slice l.list ++ ')' :: tail) ∧
      l.list.start = size (before ++ (lead ++ ['('])) := by
  obtain ⟨before, lead, list, tail, after, ht, hhead, hlist⟩ := h
  have hheadSlice : t.slice l.head = lead ++ '(' :: (list ++ ')' :: tail) := by
    rw [hhead, ht, slice_size]
  -- the list starts one byte behind its opening parenthesis
  have hopen : size (before ++ lead) + 1 = size (before ++ lead ++ ['(']) := by
    rw [size_append _ ['(']]
    rfl
  have hlistSlice : t.slice l.list = list := by
    have htext : t = (before ++ lead ++ ['(']) ++ (list ++ (')' :: tail ++ after)) := by
      rw [ht]
      simp
    rw [hlist, htext, hopen, slice_size]
  refine ⟨before, lead, tail, after, ?_, ?_, ?_⟩
  · rw [hheadSlice, ht]
  · rw [hheadSlice, hlistSlice]
    simp
  · rw [hlist, ← List.append_assoc, ← hopen]

end ParameterList

/-- A head that ends with an opening parenthesis has its list behind it. -/
theorem standsIn_of_listAfterHead? {before lead post : Text} {o : Occurrence} {l : ParameterList}
    (hstop : o.stop = size (before ++ lead) + 1)
    (h : listAfterHead? (before ++ lead ++ '(' :: post) (size before) o = some l) :
    l.StandsIn (before ++ lead ++ '(' :: post) := by
  simp only [listAfterHead?, hstop, Nat.add_sub_cancel, Option.bind_eq_bind,
    Option.bind_eq_some_iff] at h
  obtain ⟨closed, hclosed, h⟩ := h
  -- what the search finds is a closing parenthesis
  obtain ⟨list, after, rfl, rfl⟩ := closingParen_spec hclosed
  cases h
  have hopen : '('.utf8Size = 1 := rfl
  have hclose : ')'.utf8Size = 1 := rfl
  refine ⟨before, lead, list, [], after, by simp, ?_, rfl⟩
  simp only [size_append, size_cons, size_nil, hopen, hclose, Span.mk.injEq, true_and]
  omega

/-- The match of a head, cut before its parenthesis. -/
theorem exists_of_mem_headOccurrences {starts : Option Char → Bool} {lead name : Piece} {t : Text}
    {o : Occurrence} (h : o ∈ occurrences (.ofPieces starts lead name .openList) t) :
    ∃ pre x post, t = pre ++ o.found.lead ++ (o.found.name ++ x) ++ '(' :: post ∧
      o.start = size pre ∧ o.stop = size (pre ++ o.found.lead ++ (o.found.name ++ x)) + 1 := by
  obtain ⟨pre, post, ht, hstart, hfind⟩ := exists_of_mem_occurrences h
  obtain ⟨-, r₁, r₂, r₃, -, -, htail⟩ := Shape.find_ofPieces hfind
  -- the tail of such a shape ends in the parenthesis
  obtain ⟨x, hx⟩ := Piece.take_openList htail
  have hopen : '('.utf8Size = 1 := rfl
  refine ⟨pre, x, post, ?_, hstart, ?_⟩
  · rw [ht, Match.text, hx]
    simp
  · rw [Occurrence.stop, hstart, Match.text, hx]
    simp only [size_append, size_cons, size_nil, hopen]
    omega

theorem standsIn_of_mem_functionLists {t : Text} {l : ParameterList} (h : l ∈ functionLists t) :
    l.StandsIn t := by
  obtain ⟨o, ho, hl⟩ := List.mem_filterMap.mp h
  obtain ⟨pre, x, post, ht, hstart, hstop⟩ := exists_of_mem_headOccurrences ho
  -- the whole match is shown, so its lead belongs to the head
  rw [List.append_assoc pre] at ht hstop
  rw [ht, hstart] at hl
  rw [ht]
  exact standsIn_of_listAfterHead? hstop hl

theorem standsIn_of_mem_methodLists {t : Text} {l : ParameterList} (h : l ∈ methodLists t) :
    l.StandsIn t := by
  obtain ⟨o, ho, hl⟩ := List.mem_filterMap.mp h
  obtain ⟨pre, x, post, ht, hstart, hstop⟩ := exists_of_mem_headOccurrences ho
  split at hl
  · -- the head of a method starts with its name
    have hname : o.nameStart = size (pre ++ o.found.lead) := by
      rw [Occurrence.nameStart, hstart, size_append]
    rw [Option.filter_eq_some_iff, hname] at hl
    have hl := hl.1
    rw [ht] at hl
    rw [ht]
    exact standsIn_of_listAfterHead? hstop hl
  · simp at hl

/-- The match of an arrow starts with a closing parenthesis. -/
theorem exists_of_mem_arrowOccurrences {t : Text} {o : Occurrence}
    (h : o ∈ occurrences arrowTailShape t) :
    ∃ pre tail post, t = pre ++ ')' :: (tail ++ post) ∧ o.start = size pre ∧
      o.found.text = ')' :: tail := by
  obtain ⟨pre, post, ht, hstart, hfind⟩ := exists_of_mem_occurrences h
  -- the match is `)`, what follows it up to the arrow, and no name
  obtain ⟨-, r₁, r₂, r₃, hlead, hname, htail⟩ := Shape.find_ofPieces hfind
  obtain ⟨a₁, r, tail, hclose, -, hparts⟩ := Piece.take_andThen hlead
  rw [Piece.take_char hclose] at hparts
  have htext : o.found.text = ')' :: tail := by
    simp only [Piece.nothing, Option.some.injEq, Prod.mk.injEq] at hname htail
    rw [Match.text, hparts, ← hname.1, ← htail.1]
    simp
  exact ⟨pre, tail, post, by rw [ht, htext, List.cons_append], hstart, htext⟩

theorem standsIn_of_mem_arrowLists {t : Text} {l : ParameterList} (h : l ∈ arrowLists t) :
    l.StandsIn t := by
  obtain ⟨o, ho, hl⟩ := List.mem_filterMap.mp h
  obtain ⟨opened, hopened, rfl⟩ := Option.map_eq_some_iff.mp hl
  obtain ⟨pre, tail, post, ht, hstart, htext⟩ := exists_of_mem_arrowOccurrences ho
  rw [ht, hstart] at hopened
  -- the arrow is found first, and the list backwards from it
  obtain ⟨before, list, rfl, rfl⟩ := openingParen_spec hopened
  have hopen : '('.utf8Size = 1 := rfl
  have hclose : ')'.utf8Size = 1 := rfl
  refine ⟨before, [], list, tail, post, ?_, ?_, ?_⟩
  · rw [ht]
    simp
  · rw [Occurrence.stop, hstart, htext]
    simp only [size_append, size_cons, List.nil_append, hopen, hclose, Span.mk.injEq, true_and]
    omega
  · rw [hstart]
    simp only [size_append, size_cons, List.append_nil, hopen, Span.mk.injEq, true_and]
    omega

/-- Every list that is found lies between parentheses. -/
theorem standsIn_of_mem_parameterLists {t : Text} {l : ParameterList} (h : l ∈ parameterLists t) :
    l.StandsIn t := by
  rw [parameterLists, List.mem_append, List.mem_append] at h
  rcases h with (h | h) | h
  · exact standsIn_of_mem_functionLists h
  · exact standsIn_of_mem_methodLists h
  · exact standsIn_of_mem_arrowLists h

/-! ## Declarations -/

/-- What is shown with a parameter holds its name, whether it is the head or the line of the name. -/
theorem shownWith_spec {name : Text} (hn : IsIdentifier name) (before a b after : Text) :
    ∃ x lead tail y, before ++ a = x ++ lead ∧ b ++ after = tail ++ y ∧
      shownWith (before ++ (a ++ name ++ b ++ after)) (a ++ name ++ b) (size (before ++ a)) =
        lead ++ name ++ tail := by
  rw [shownWith]
  split
  · -- the head spans lines: the line of the name is shown
    have ht : before ++ (a ++ name ++ b ++ after) = before ++ a ++ name ++ (b ++ after) := by simp
    obtain ⟨x, a', b', y, hpre, hpost, hline⟩ := lineAround_spec hn (before ++ a) (b ++ after)
    obtain ⟨x', lead, tail, y', rfl, rfl, htrim⟩ := trim_word hn a' b'
    refine ⟨x ++ x', lead, tail, y' ++ y, ?_, ?_, ?_⟩
    · rw [hpre, List.append_assoc]
    · rw [hpost, List.append_assoc]
    · rw [ht, hline, htrim]
  · obtain ⟨x, lead, tail, y, rfl, rfl, htrim⟩ := trim_word hn a b
    exact ⟨before ++ x, lead, tail, y ++ after, by simp, by simp, htrim⟩

/-- The place of a parameter: the head of its list is cut at the name, and no identifier runs over
into the name on either side. -/
theorem exists_of_mem_listDeclarations {t : Text} {l : ParameterList} (hl : l.StandsIn t)
    {d : Declaration} (h : d ∈ listDeclarations t l) :
    IsIdentifier d.name ∧ ∃ before a b after, t = before ++ (a ++ d.name ++ b ++ after) ∧
      d.offset = size (before ++ a) ∧ d.matched = shownWith t (a ++ d.name ++ b) d.offset ∧
      EndsApart [] (before ++ a) ∧ (b ++ after).head?.any isIdent = false := by
  obtain ⟨s, hs, hd⟩ := List.mem_filterMap.mp h
  obtain ⟨⟨position, name⟩, hname, rfl⟩ := Option.map_eq_some_iff.mp hd
  obtain ⟨before, lead, tail, after, ht, hhead, hstart⟩ := hl.slices
  obtain ⟨a, b, hlist, hsegment, ha, hb⟩ := exists_of_mem_segments hs
  obtain ⟨hn, p, q, htext, hposition, hp, hq⟩ := parameterName?_spec hname
  -- name in segment, segment in list, list in head, head in text
  have hcut : t.slice l.head = (lead ++ ['('] ++ a ++ p) ++ name ++ (q ++ (b ++ ')' :: tail)) := by
    rw [hhead, hlist, htext]
    simp
  have hopen : EndsApart [] (before ++ (lead ++ ['('])) := by
    rw [← List.append_assoc]
    exact (endsApart_of_false rfl).append_left (List.cons_ne_nil _ _) _
  have hclose : (b ++ ')' :: (tail ++ after)).head?.any isIdent = false :=
    any_head?_append hb rfl
  refine ⟨hn, before, lead ++ ['('] ++ a ++ p, q ++ (b ++ ')' :: tail), after, ?_, ?_, ?_, ?_, ?_⟩
  · conv_lhs => rw [ht, hcut]
  · dsimp only
    rw [hstart, hsegment, hposition]
    simp only [size_append]
    omega
  · dsimp only
    rw [hcut]
  · simpa using (hopen.append ha).append hp
  · simpa using any_head?_append hq hclose

/-- The parameters of a list stand in the text. -/
theorem standsIn_of_mem_listDeclarations {t : Text} {l : ParameterList} (hl : l.StandsIn t)
    {d : Declaration} (h : d ∈ listDeclarations t l) : d.StandsIn t := by
  obtain ⟨hn, before, a, b, after, ht, hoffset, hmatched, -, -⟩ := exists_of_mem_listDeclarations hl h
  obtain ⟨x, lead, tail, y, hpre, hpost, hshown⟩ := shownWith_spec hn before a b after
  refine ⟨hn, x, lead, tail, y, ?_, ?_, ?_⟩
  · calc t = before ++ a ++ d.name ++ (b ++ after) := by rw [ht]; simp
      _ = x ++ (lead ++ d.name ++ tail) ++ y := by rw [hpre, hpost]; simp
  · rw [hmatched, hoffset, ← hshown, ← ht]
  · rw [hoffset, hpre]

end NamingLint
