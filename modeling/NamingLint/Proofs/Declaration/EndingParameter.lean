import NamingLint.Proofs.Declaration.EndingOccurrence

/-!
# NamingLint — parameters and line endings

Parentheses, commas and names stand at corresponding offsets of a text and of the plain text, so the
parameters that are found correspond as well.

* `Span.mended`, `ParameterList.mended` — what stands for it in the plain text.

Main results:

* `closingParen_plain`, `openingParen_plain` — the partner of a parenthesis.
* `parameterLists_plain` — the parameter lists.
* `segments_plain`, `parameterName?_plain` — the parts of a list and their names.
* `listDeclarations_plain` — the parameters of a list.
-/

namespace NamingLint

open Text

/-! ## Parentheses -/

/-- The closing parenthesis is found at the corresponding offset, from any depth on. -/
theorem closingParenFrom_plain (depth : Int) (w r : Text) :
    closingParenFrom depth (size (plain w)) (plain r) =
      (closingParenFrom depth (size w) r).map (plainOffset (w ++ r)) := by
  induction r generalizing depth w with
  | nil => rfl
  | cons c r ih =>
    by_cases hc : c = '\r'
    · -- a carriage return moves the offset on one side only
      subst hc
      have hskip := ih depth (w ++ ['\r'])
      rw [closingParenFrom, if_neg (by decide), if_neg (by decide)]
      simpa using hskip
    · have hnext : ∀ d, closingParenFrom d (size (plain w) + c.utf8Size) (plain r) =
          (closingParenFrom d (size w + c.utf8Size) r).map (plainOffset (w ++ c :: r)) := by
        intro d
        simpa [plain_cons hc] using ih d (w ++ [c])
      rw [plain_cons hc, closingParenFrom, closingParenFrom]
      split
      · exact hnext _
      · split
        · split
          · rw [Option.map_some, plainOffset_size]
          · exact hnext _
        · exact hnext _

/-- The parenthesis that closes a list is the same in both texts. -/
theorem closingParen_plain (w r : Text) :
    closingParen (plain (w ++ r)) (size (plain w)) =
      (closingParen (w ++ r) (size w)).map (plainOffset (w ++ r)) := by
  rw [closingParen, closingParen, plain_append, dropBytes_size, dropBytes_size,
    closingParenFrom_plain]

/-- Backwards the same: the opening parenthesis is found at the corresponding offset. -/
theorem openingParenFrom_plain (depth : Nat) (r x : Text) :
    openingParenFrom depth (size (plain r)) (plain r) =
      (openingParenFrom depth (size r) r).map (plainOffset (r.reverse ++ x)) := by
  induction r generalizing depth x with
  | nil => rfl
  | cons c r ih =>
    have hoffset : size (c :: r) - c.utf8Size = size r := by simp
    by_cases hc : c = '\r'
    · subst hc
      have hskip := ih depth ('\r' :: x)
      rw [openingParenFrom, if_neg (by decide), if_neg (by decide), hoffset]
      simpa using hskip
    · have hoffset' : size (c :: plain r) - c.utf8Size = size (plain r) := by simp
      have hnext : ∀ d, openingParenFrom d (size (plain r)) (plain r) =
          (openingParenFrom d (size r) r).map (plainOffset ((c :: r).reverse ++ x)) := by
        intro d
        simpa using ih d (c :: x)
      rw [plain_cons hc, openingParenFrom, openingParenFrom, hoffset, hoffset']
      split
      · exact hnext _
      · split
        · split
          · -- the offset is the size of what is left of the reversed text
            have hplace : (c :: r).reverse ++ x = r.reverse ++ (c :: x) := by simp
            have hsize : size (plain r) = size (plain r.reverse) := by
              rw [plain_reverse, size_reverse]
            rw [Option.map_some, hplace, ← size_reverse r, plainOffset_size, hsize]
          · exact hnext _
        · exact hnext _

/-- The parenthesis that opens a list is the same in both texts. -/
theorem openingParen_plain (w r : Text) :
    openingParen (plain (w ++ ')' :: r)) (size (plain w)) =
      (openingParen (w ++ ')' :: r) (size w)).map (plainOffset (w ++ ')' :: r)) := by
  have hplain : plain (w ++ ')' :: r) = plain w ++ ')' :: plain r := by
    rw [plain_append, plain_cons (by decide)]
  rw [hplain, openingParen_size, openingParen_size, ← plain_reverse, ← size_reverse w,
    ← size_reverse (plain w), ← plain_reverse, openingParenFrom_plain 1 w.reverse (')' :: r),
    List.reverse_reverse]

/-! ## Offsets and spans -/

/-- Behind a character that is no carriage return. -/
theorem plainOffset_next {c : Char} (hc : c ≠ '\r') (w r : Text) :
    plainOffset (w ++ c :: r) (size w + c.utf8Size) = size (plain w) + c.utf8Size := by
  have hsize : size w + c.utf8Size = size (w ++ [c]) := by simp
  rw [hsize, List.append_cons w, plainOffset_size, plain_append, size_append, plain_cons hc]
  simp

/-- The span in the plain text that stands for this one in `t`. -/
def Span.mended (t : Text) (s : Span) : Span :=
  ⟨plainOffset t s.start, plainOffset t s.stop⟩

/-- A stretch of the text without carriage returns is the stretch, without carriage returns. -/
theorem slice_plain {t a b c : Text} (ht : t = a ++ (b ++ c)) {s : Span}
    (hs : s = ⟨size a, size a + size b⟩) :
    slice (plain t) (s.mended t) = plain (slice t s) := by
  have hstop : plainOffset (a ++ (b ++ c)) (size a + size b) = size (plain a) + size (plain b) := by
    rw [← size_append, ← List.append_assoc, plainOffset_size, plain_append, size_append]
  rw [hs, ht, Span.mended, plainOffset_size, hstop, plain_append, plain_append, slice_size,
    slice_size]

/-- The list in the plain text that stands for this one in `t`. -/
def ParameterList.mended (t : Text) (l : ParameterList) : ParameterList :=
  ⟨l.head.mended t, l.list.mended t⟩

/-! ## Lists -/

/-- The list behind a head is the same in both texts, or missing in both. -/
theorem listAfterHead?_plain {before lead post : Text} {o o' : Occurrence}
    (hstop : o.stop = size (before ++ lead) + 1)
    (hstop' : o'.stop = plainOffset (before ++ lead ++ '(' :: post) o.stop) :
    listAfterHead? (plain (before ++ lead ++ '(' :: post))
        (plainOffset (before ++ lead ++ '(' :: post) (size before)) o' =
      (listAfterHead? (before ++ lead ++ '(' :: post) (size before) o).map
        (ParameterList.mended (before ++ lead ++ '(' :: post)) := by
  have hopen : plainOffset (before ++ lead ++ '(' :: post) (size (before ++ lead) + 1) =
      size (plain (before ++ lead)) + 1 := plainOffset_next (c := '(') (by decide) _ _
  rw [hstop, hopen] at hstop'
  simp only [listAfterHead?, hstop, hstop', Nat.add_sub_cancel, closingParen_plain,
    Option.bind_eq_bind]
  cases hclosed : closingParen (before ++ lead ++ '(' :: post) (size (before ++ lead)) with
  | none => rfl
  | some closed =>
    obtain ⟨list, after, rfl, rfl⟩ := closingParen_spec hclosed
    -- the head stops behind the closing parenthesis
    have hinside : size (before ++ lead) + 1 + size list = size (before ++ lead ++ '(' :: list) := by
      have hone : '('.utf8Size = 1 := rfl
      rw [size_append _ ('(' :: list), size_cons, hone, Nat.add_assoc]
    have htext : before ++ lead ++ '(' :: (list ++ ')' :: after) =
        before ++ lead ++ '(' :: list ++ ')' :: after := by simp
    have hclose : plainOffset (before ++ lead ++ '(' :: (list ++ ')' :: after))
          (size (before ++ lead) + 1 + size list + 1) =
        plainOffset (before ++ lead ++ '(' :: (list ++ ')' :: after))
          (size (before ++ lead) + 1 + size list) + 1 := by
      rw [hinside, htext, plainOffset_size]
      exact plainOffset_next (c := ')') (by decide) _ _
    simp only [Option.map_some, Option.bind_some, pure, ParameterList.mended, Span.mended, hopen,
      hclose]

/-- A method has a body in both texts or in neither. -/
theorem hasBody_plain {t : Text} (h : Paired t) : hasBody (plain t) = hasBody t := by
  have hsteady : (Piece.seq [.blanks, .optional (.ascription ['\x7b', ';']), .char '\x7b']).Steady :=
    Piece.blanks_steady.andThen <| (Piece.ascription_steady (by decide)).optional.andThen <|
      Piece.char_steady (by decide) (by decide)
  rw [hasBody, hasBody, hsteady t h, Option.isSome_map]

section Lists

variable {u : Text}

/-- Lists of functions, which are shown from the word `function` on. -/
theorem functionLists_plain (hu : Paired u) :
    functionLists (plain u) = (functionLists u).map (ParameterList.mended u) := by
  rw [functionLists, functionLists, occurrences_plain firm_functionHeadShape.toSettled.steady hu,
    List.filterMap_map, List.map_filterMap]
  apply List.filterMap_congr
  intro o ho
  have hstop' := stop_mended firm_functionHeadShape hu ho
  obtain ⟨pre, x, post, hplace, hstart, hstop⟩ := exists_of_mem_headOccurrences ho
  -- the whole match is shown
  rw [List.append_assoc pre] at hplace hstop
  rw [hplace] at hstop' ⊢
  rw [hstart]
  show listAfterHead? _ (plainOffset _ o.start) _ = _
  rw [hstart]
  exact listAfterHead?_plain hstop hstop'

/-- What follows the head of a list. -/
theorem dropBytes_head_plain {l : ParameterList} (hl : l.StandsIn u) :
    dropBytes (l.mended u).head.stop (plain u) = plain (dropBytes l.head.stop u) ∧
      dropBytes l.head.stop u <:+ u := by
  obtain ⟨before, lead, list, tail, after, rfl, hhead, -⟩ := hl
  generalize lead ++ '(' :: (list ++ ')' :: tail) = head at hhead ⊢
  have hstop : l.head.stop = size (before ++ head) := by rw [hhead, size_append]
  have hstop' : (l.mended (before ++ (head ++ after))).head.stop = size (plain (before ++ head)) := by
    show plainOffset _ l.head.stop = _
    rw [hstop, ← List.append_assoc, plainOffset_size]
  rw [hstop', hstop, ← List.append_assoc, plain_append _ after, dropBytes_size, dropBytes_size]
  exact ⟨rfl, List.suffix_append _ _⟩

/-- Lists of methods, which are shown from the name on and need a body. -/
theorem methodLists_plain (hu : Paired u) :
    methodLists (plain u) = (methodLists u).map (ParameterList.mended u) := by
  rw [methodLists, methodLists, occurrences_plain firm_methodHeadShape.toSettled.steady hu,
    List.filterMap_map, List.map_filterMap]
  apply List.filterMap_congr
  intro o ho
  have hstop' := stop_mended firm_methodHeadShape hu ho
  have hname' := nameStart_mended ho
  obtain ⟨pre, x, post, hplace, hstart, hstop⟩ := exists_of_mem_headOccurrences ho
  have hname : o.nameStart = size (pre ++ o.found.lead) := by
    rw [Occurrence.nameStart, hstart, size_append]
  -- what is shown starts with the name
  have hlist : listAfterHead? (plain u) (o.mended u).nameStart (o.mended u) =
      (listAfterHead? u o.nameStart o).map (ParameterList.mended u) := by
    rw [hname', hname]
    rw [hplace] at hstop' ⊢
    exact listAfterHead?_plain hstop hstop'
  have hsame : (o.mended u).found.name = o.found.name := rfl
  simp only [Function.comp_apply, hsame, hlist]
  split
  · cases hl : listAfterHead? u o.nameStart o with
    | none => rfl
    | some l =>
      -- whether there is a body is told by what follows the list
      have hstands : l.StandsIn u := by
        rw [hname] at hl
        rw [hplace] at hl ⊢
        exact standsIn_of_listAfterHead? hstop hl
      obtain ⟨hdrop, v, hv⟩ := dropBytes_head_plain hstands
      have hbody : hasBody (dropBytes (l.mended u).head.stop (plain u)) =
          hasBody (dropBytes l.head.stop u) := by
        rw [hdrop, hasBody_plain (Paired.append_right (t := v) (by rwa [hv]))]
      rw [Option.map_some, Option.filter_some, Option.filter_some, hbody]
      split <;> rfl
  · rfl

/-- Lists of arrow functions, which are found from their end. -/
theorem arrowLists_plain (hu : Paired u) :
    arrowLists (plain u) = (arrowLists u).map (ParameterList.mended u) := by
  rw [arrowLists, arrowLists, occurrences_plain firm_arrowTailShape.toSettled.steady hu,
    List.filterMap_map, List.map_filterMap]
  apply List.filterMap_congr
  intro o ho
  have hstop := stop_mended firm_arrowTailShape hu ho
  obtain ⟨pre, tail, post, hplace, hstart, -⟩ := exists_of_mem_arrowOccurrences ho
  have hopening : openingParen (plain u) (o.mended u).start =
      (openingParen u o.start).map (plainOffset u) := by
    show openingParen _ (plainOffset u o.start) = _
    rw [hstart, hplace, plainOffset_size]
    exact openingParen_plain _ _
  rw [Function.comp_apply, hopening, Option.map_map, Option.map_map]
  cases hopened : openingParen u o.start with
  | none => rfl
  | some opened =>
    rw [hplace, hstart] at hopened
    obtain ⟨before, list, rfl, rfl⟩ := openingParen_spec hopened
    -- the list starts behind the opening parenthesis
    have hopen : plainOffset u (size before + 1) = plainOffset u (size before) + 1 := by
      rw [hplace, List.append_assoc, plainOffset_size]
      exact plainOffset_next (c := '(') (by decide) _ _
    simp only [Option.map_some, Function.comp_apply, ParameterList.mended, Span.mended, hopen, hstop]
    rfl

theorem parameterLists_plain (hu : Paired u) :
    parameterLists (plain u) = (parameterLists u).map (ParameterList.mended u) := by
  rw [parameterLists, parameterLists, functionLists_plain hu, methodLists_plain hu,
    arrowLists_plain hu, List.map_append, List.map_append]

end Lists

/-! ## Segments -/

/-- A line ending changes no depth. -/
theorem cutAtCommas_pair (depth : Nat) (previous : Option Char) (t : Text) :
    ∃ s ss, cutAtCommas depth (some '\n') t = s :: ss ∧
      cutAtCommas depth previous ('\n' :: t) = ('\n' :: s) :: ss ∧
      cutAtCommas depth previous ('\r' :: '\n' :: t) = ('\r' :: '\n' :: s) :: ss := by
  have hreturn : ¬('\r' = ',' ∧ depth = 0) := by simp
  have hfeed : ¬('\n' = ',' ∧ depth = 0) := by simp
  obtain ⟨s, ss, hcut, hone⟩ := cutAtCommas_cons hfeed previous t
  obtain ⟨s', ss', hcut', htwo⟩ := cutAtCommas_cons hreturn previous ('\n' :: t)
  -- the character before matters to an angle bracket only
  have hdepth : depthAfter depth previous '\n' = depth := rfl
  rw [hdepth] at hcut
  refine ⟨s, ss, hcut, hone, ?_⟩
  obtain ⟨s₂, ss₂, hcut₂, hone₂⟩ := cutAtCommas_cons hfeed (some '\r') t
  obtain ⟨rfl, rfl⟩ : s = s₂ ∧ ss = ss₂ := by simpa using hcut.symm.trans hcut₂
  obtain ⟨rfl, rfl⟩ : '\n' :: s = s' ∧ ss = ss' := by simpa using hone₂.symm.trans hcut'
  exact htwo

/-- A list is cut at the same commas. -/
theorem cutAtCommas_plain {t : Text} (ht : Paired t) (depth : Nat) (previous : Option Char) :
    cutAtCommas depth previous (plain t) = (cutAtCommas depth previous t).map plain := by
  induction ht generalizing depth previous with
  | nil => rfl
  | @keep c t hc ht ih =>
    by_cases hcomma : c = ',' ∧ depth = 0
    · rw [plain_cons hc, cutAtCommas, if_pos hcomma, cutAtCommas, if_pos hcomma, ih, List.map_cons,
        plain_nil]
    · obtain ⟨s, ss, hcut, hcons⟩ := cutAtCommas_cons hcomma previous t
      have ih := ih (depthAfter depth previous c) (some c)
      rw [hcut, List.map_cons] at ih
      rw [plain_cons hc, cutAtCommas, if_neg hcomma, ih, hcons, List.map_cons, plain_cons hc]
  | @pair t ht ih =>
    -- neither character of a line ending is a comma or moves the depth
    obtain ⟨s, ss, hcut, -, hpair⟩ := cutAtCommas_pair depth previous t
    obtain ⟨s', ss', hcut', hone, -⟩ := cutAtCommas_pair depth previous (plain t)
    have ih := ih depth (some '\n')
    rw [hcut, hcut', List.map_cons] at ih
    obtain ⟨rfl, rfl⟩ : s' = plain s ∧ ss' = ss.map plain := by simpa using ih
    rw [plain_return, plain_feed, hone, hpair, List.map_cons, plain_return, plain_feed]

/-- No cut goes through a line ending. -/
theorem paired_of_mem_cutAtCommas {t : Text} (ht : Paired t) (depth : Nat)
    (previous : Option Char) : ∀ s ∈ cutAtCommas depth previous t, Paired s := by
  induction ht generalizing depth previous with
  | nil => simpa [cutAtCommas] using Paired.nil
  | @keep c t hc ht ih =>
    -- a comma ends a part, anything else goes into the first part of the rest
    by_cases hcomma : c = ',' ∧ depth = 0
    · rw [cutAtCommas, if_pos hcomma, List.forall_mem_cons]
      exact ⟨.nil, ih _ _⟩
    · obtain ⟨s, ss, hcut, hcons⟩ := cutAtCommas_cons hcomma previous t
      have ih := ih (depthAfter depth previous c) (some c)
      rw [hcut, List.forall_mem_cons] at ih
      rw [hcons, List.forall_mem_cons]
      exact ⟨.keep hc ih.1, ih.2⟩
  | @pair t ht ih =>
    -- a line ending is not cut in two
    obtain ⟨s, ss, hcut, -, hpair⟩ := cutAtCommas_pair depth previous t
    have ih := ih depth (some '\n')
    rw [hcut, List.forall_mem_cons] at ih
    rw [hpair, List.forall_mem_cons]
    exact ⟨.pair ih.1, ih.2⟩

/-- The segment of the plain list that stands for this one of `list`. -/
def Segment.mended (list : Text) (s : Segment) : Segment :=
  ⟨plainOffset list s.start, plain s.text⟩

/-- The parts start at corresponding offsets. -/
theorem withStarts_plain (w : Text) (ps : List Text) :
    withStarts (size (plain w)) (ps.map plain) =
      (withStarts (size w) ps).map (Segment.mended (w ++ [','].intercalate ps)) := by
  induction ps generalizing w with
  | nil => rfl
  | cons p ps ih =>
    rw [List.map_cons, withStarts, withStarts, List.map_cons, Segment.mended, plainOffset_size]
    cases ps with
    | nil => rfl
    | cons q qs =>
      -- the next part starts behind a comma
      have hone : ','.utf8Size = 1 := rfl
      have hjoin : w ++ [','].intercalate (p :: q :: qs) =
          w ++ p ++ [','] ++ [','].intercalate (q :: qs) := by simp
      have hsize : size w + size p + 1 = size (w ++ p ++ [',']) := by
        rw [size_append, size_append, size_cons, size_nil, hone]
      have hsize' : size (plain w) + size (plain p) + 1 = size (plain (w ++ p ++ [','])) := by
        rw [plain_append, plain_append, plain_cons (by decide), size_append, size_append, plain_nil,
          size_cons, size_nil, hone]
      rw [hjoin, hsize, hsize', ih (w ++ p ++ [','])]

/-- The segments of a list correspond one by one. -/
theorem segments_plain {list : Text} (h : Paired list) :
    segments (plain list) = (segments list).map (Segment.mended list) := by
  have hjoin := intercalate_cutAtCommas 0 none list
  have hstarts := withStarts_plain [] (cutAtCommas 0 none list)
  rw [List.nil_append, hjoin] at hstarts
  rw [segments, cutAtCommas_plain h]
  exact hstarts

theorem paired_of_mem_segments {list : Text} (h : Paired list) {s : Segment}
    (hs : s ∈ segments list) : Paired s.text := by
  -- the offsets do not matter
  have hparts : ∀ (ps : List Text) (start : Nat), (∀ p ∈ ps, Paired p) → s ∈ withStarts start ps →
      Paired s.text := by
    intro ps
    induction ps with
    | nil => simp [withStarts]
    | cons p ps ih =>
      intro start hps hmem
      rw [List.forall_mem_cons] at hps
      rcases List.mem_cons.mp hmem with rfl | hmem
      · exact hps.1
      · exact ih _ hps.2 hmem
  exact hparts _ _ (paired_of_mem_cutAtCommas h 0 none) hs

/-! ## Names -/

/-- What is passed over is something. -/
theorem length_of_skipped {t a r : Text}
    (h : (Piece.word "...").take t = some (a, r) ∨
      (Piece.seq [.identifier, .blanks1]).take t = some (a, r)) : r.length < t.length := by
  -- three dots, or a word that is not empty
  obtain ⟨hne, ht⟩ : a ≠ [] ∧ a ++ r = t := by
    rcases h with h | h
    · refine ⟨?_, (Piece.word "...").append_eq h⟩
      rw [Piece.take_word h]
      decide
    · refine ⟨?_, (Piece.seq [.identifier, .blanks1]).append_eq h⟩
      obtain ⟨a₁, r₁, a₂, h₁, -, rfl⟩ := Piece.take_andThen h
      simp [(Piece.take_identifier h₁).1.ne_nil]
  have := List.length_pos_of_ne_nil hne
  rw [← ht, List.length_append]
  omega

/-- Passing over modifiers does not depend on the fuel, if that suffices for the text. -/
theorem skipParameterModifiers_fuel {n m : Nat} {t : Text} (hn : t.length ≤ n) (hm : t.length ≤ m) :
    skipParameterModifiers n t = skipParameterModifiers m t := by
  have hnil : ∀ k, skipParameterModifiers k [] = [] := fun k => by cases k <;> rfl
  induction n generalizing m t with
  | zero =>
    obtain rfl : t = [] := List.eq_nil_of_length_eq_zero (by omega)
    rw [hnil, hnil]
  | succ n ih =>
    cases m with
    | zero =>
      obtain rfl : t = [] := List.eq_nil_of_length_eq_zero (by omega)
      rw [hnil, hnil]
    | succ m =>
      -- each round takes a character at least, so fuel of the length is enough
      rw [skipParameterModifiers, skipParameterModifiers]
      split
      · rename_i h
        have := length_of_skipped (.inl h)
        exact ih (by omega) (by omega)
      · split
        · rfl
        · rename_i h
          have := length_of_skipped (.inr h)
          split
          · exact ih (by omega) (by omega)
          · rfl

/-- The same modifiers are skipped before a parameter's name. -/
theorem skipParameterModifiers_plain (fuel : Nat) {t : Text} (h : Paired t) :
    skipParameterModifiers fuel (plain t) = plain (skipParameterModifiers fuel t) := by
  have hrest : (Piece.word "...").Steady := Piece.word_steady (by decide) (by decide)
  have hmodifier : (Piece.seq [.identifier, .blanks1]).Steady :=
    Piece.identifier_steady.andThen Piece.blanks1_steady
  induction fuel generalizing t with
  | zero => rfl
  | succ fuel ih =>
    rw [skipParameterModifiers, skipParameterModifiers, hrest t h]
    -- three dots are skipped first, and then words that are modifiers
    cases hdots : (Piece.word "...").take t with
    | some taken => exact ih (Piece.paired_rest h hdots)
    | none =>
      rw [Option.map_none, hmodifier t h, Piece.takeWhile_isIdent_plain h]
      cases hword : (Piece.seq [.identifier, .blanks1]).take t with
      | none => rfl
      | some taken =>
        simp only [Option.map_some]
        split
        · exact ih (Piece.paired_rest h hword)
        · rfl

/-- The name of a segment is the same, at the corresponding place. -/
theorem parameterName?_plain {segment : Text} (h : Paired segment) :
    parameterName? (plain segment) =
      (parameterName? segment).map fun found => (plainOffset segment found.1, found.2) := by
  have htrim : trimStart (plain segment) = plain (trimStart segment) :=
    dropWhile_plain_of_return (by decide) segment
  have hpaired : Paired (trimStart segment) := by
    rw [← List.takeWhile_append_dropWhile (p := isBlank) (l := segment)] at h
    exact h.append_right
  have hlength : (trimStart segment).length ≤ segment.length :=
    (List.dropWhile_suffix isBlank).length_le
  have hlength' : (plain (trimStart segment)).length ≤ (plain segment).length :=
    ((List.dropWhile_sublist isBlank).filter _).length_le
  have hle : (plain segment).length ≤ segment.length := List.length_filter_le _ _
  -- both have fuel enough
  have hrest : skipParameterModifiers (plain segment).length (trimStart (plain segment)) =
      plain (skipParameterModifiers segment.length (trimStart segment)) := by
    rw [htrim, ← skipParameterModifiers_plain _ hpaired]
    exact skipParameterModifiers_fuel hlength' (by omega)
  obtain ⟨a, ha, -⟩ := skipParameterModifiers_spec segment.length (trimStart segment)
  simp only [parameterName?, hrest]
  generalize skipParameterModifiers segment.length (trimStart segment) = rest at ha ⊢
  have hsegment : segment = segment.takeWhile isBlank ++ a ++ rest := by
    rw [List.append_assoc, ha, trimStart, List.takeWhile_append_dropWhile]
  rw [Piece.takeWhile_isIdent_plain (by rw [hsegment] at h; exact h.append_right)]
  split
  · rfl
  · generalize segment.takeWhile isBlank ++ a = w at hsegment
    rw [Option.map_some, hsegment, plain_append, size_append, size_append, Nat.add_sub_cancel,
      Nat.add_sub_cancel, plainOffset_size]

/-! ## What is shown with a parameter -/

/-- The line around a place is the same, without its carriage return. -/
theorem lineAround_plain (w x : Text) :
    lineAround (plain (w ++ x)) (size (plain w)) = plain (lineAround (w ++ x) (size w)) := by
  -- a line goes on over a carriage return, so no pairing is needed here
  have hline : ((fun c => decide (c ≠ '\n')) '\r') = true := rfl
  rw [lineAround, lineAround, plain_append w x, takeBytes_size, dropBytes_size, takeBytes_size,
    dropBytes_size, ← plain_reverse, takeWhile_plain_of_return hline, takeWhile_plain_of_return hline,
    plain_append, plain_reverse]

/-- What is shown with a parameter is the head of its function, or the line if the head has several.
-/
theorem shownWith_plain (w x head : Text) :
    shownWith (plain (w ++ x)) (plain head) (size (plain w)) =
      plain (shownWith (w ++ x) head (size w)) := by
  have hfeed : '\n' ∈ plain head ↔ '\n' ∈ head := by simp
  rw [shownWith, shownWith, lineAround_plain, trim_plain, trim_plain]
  -- the head has several lines in both texts or in neither
  by_cases h : '\n' ∈ head
  · rw [if_pos h, if_pos (hfeed.mpr h)]
  · rw [if_neg h, if_neg (hfeed.not.mpr h)]

/-- What is shown is trimmed, so it does not end in a carriage return. -/
theorem getLast?_shownWith (t head : Text) (offset : Nat) :
    (shownWith t head offset).getLast? ≠ some '\r' := by
  rw [shownWith]
  split
  · exact getLast?_trim_ne _
  · exact getLast?_trim_ne _

/-! ## Declarations -/

section Declarations

variable {u : Text} {l : ParameterList}

/-- The spans of a list cut the plain text at the corresponding places. -/
theorem ParameterList.StandsIn.slices_plain (hl : l.StandsIn u) :
    slice (plain u) (l.mended u).head = plain (slice u l.head) ∧
      slice (plain u) (l.mended u).list = plain (slice u l.list) := by
  obtain ⟨before, lead, list, tail, after, hu, hhead, hlist⟩ := hl
  refine ⟨slice_plain hu hhead, ?_⟩
  -- the parenthesis in front of the list belongs to its head
  have hopen : size (before ++ lead) + 1 = size (before ++ lead ++ ['(']) := by
    rw [size_append _ ['(']]
    rfl
  have hinside : u = before ++ lead ++ ['('] ++ (list ++ (')' :: tail ++ after)) := by
    rw [hu]
    simp
  rw [hopen] at hlist
  exact slice_plain hinside hlist

theorem listDeclarations_plain (hu : Paired u) (hl : l.StandsIn u) :
    listDeclarations (plain u) (l.mended u) = (listDeclarations u l).map (Declaration.mended u) := by
  obtain ⟨hhead', hlist'⟩ := hl.slices_plain
  obtain ⟨before, lead, tail, after, hplace, hhead, hstart⟩ := hl.slices
  generalize hlist : slice u l.list = list at hlist' hhead
  -- the list goes up to a parenthesis
  have hinside : u = before ++ (lead ++ ['(']) ++ (list ++ ')' :: (tail ++ after)) := by
    rw [hplace, hhead]
    simp
  have hpaired : Paired list := by
    rw [hinside] at hu
    exact hu.append_right.append_left (hu.append_right.getLast?_ne (by simp))
  rw [listDeclarations, listDeclarations, hhead', hlist', hlist, segments_plain hpaired,
    List.filterMap_map, List.map_filterMap]
  apply List.filterMap_congr
  intro s hs
  rw [Function.comp_apply, Segment.mended, parameterName?_plain (paired_of_mem_segments hpaired hs),
    Option.map_map, Option.map_map]
  cases hname : parameterName? s.text with
  | none => rfl
  | some found =>
    obtain ⟨a, b, hsegment, hfrom, -, -⟩ := exists_of_mem_segments hs
    obtain ⟨-, p, q, htext, hposition, -, -⟩ := parameterName?_spec hname
    generalize before ++ (lead ++ ['(']) = w at hstart hinside
    -- what stands before the name, in the text, in the list and in the segment
    have hbefore : u = w ++ a ++ p ++ (found.2 ++ q ++ b ++ ')' :: (tail ++ after)) := by
      rw [hinside, hsegment, htext]
      simp
    have hoffset : l.list.start + s.start + found.1 = size (w ++ a ++ p) := by
      rw [hstart, hfrom, hposition, size_append, size_append]
    have hoffset' : (l.mended u).list.start + plainOffset list s.start + plainOffset s.text found.1 =
        size (plain (w ++ a ++ p)) := by
      have hw : (l.mended u).list.start = size (plain w) := by
        show plainOffset u l.list.start = _
        rw [hstart, hinside, plainOffset_size]
      have ha : plainOffset list s.start = size (plain a) := by
        rw [hfrom, hsegment, List.append_assoc, plainOffset_size]
      have hp : plainOffset s.text found.1 = size (plain p) := by
        rw [hposition, htext, List.append_assoc, plainOffset_size]
      rw [hw, ha, hp, plain_append, plain_append, size_append, size_append]
    have hsame : plainOffset u (size (w ++ a ++ p)) = size (plain (w ++ a ++ p)) := by
      rw [hbefore, plainOffset_size]
    simp only [Option.map_some, Function.comp_apply, hoffset, hoffset', Declaration.mended, hsame,
      mended_of_ne (getLast?_shownWith _ _ _)]
    rw [hbefore, shownWith_plain]

/-- What is shown with a parameter does not end inside of a line ending. -/
theorem getLast?_of_mem_listDeclarations {t : Text} {d : Declaration}
    (h : d ∈ listDeclarations t l) : d.matched.getLast? ≠ some '\r' := by
  obtain ⟨s, -, hd⟩ := List.mem_filterMap.mp h
  obtain ⟨found, -, rfl⟩ := Option.map_eq_some_iff.mp hd
  exact getLast?_shownWith _ _ _

end Declarations

end NamingLint
