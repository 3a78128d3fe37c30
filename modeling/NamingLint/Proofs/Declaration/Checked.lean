import NamingLint.Proofs.Declaration.Scan
import NamingLint.Proofs.Declaration.Segment

/-!
# NamingLint — the parameter detector, checked

The parameter detector works with byte offsets: it counts parentheses, cuts a list out of the text,
cuts the list at its commas, and cuts names and lines out of what it got. Here it is told with all
of these operations checked, over the bytes of the text. Every loop has a bound, every subtraction
and every cut may be a trap. None of them is: the checked detector always comes to its end, with the
parameters declared in the text.

* `readName`, `matchedText`, `collectList`, `detectParameters` — the detector with its checks.

Main results:

* `readName_eq`, `matchedText_eq`, `collectList_eq` — the parts meet no trap.
* `parameter_detector_meets_no_trap` — the detector meets no trap.
-/

namespace NamingLint

open Text

/-- Steps that meet no trap, one for each member of a list. -/
theorem mapM_eq_ok {α β : Type} {f : α → Except Trap β} {g : α → β} {l : List α}
    (h : ∀ a ∈ l, f a = .ok (g a)) : l.mapM f = .ok (l.map g) := by
  induction l with
  | nil => rfl
  | cons a l ih =>
    rw [List.forall_mem_cons] at h
    rw [List.mapM_cons, h.1, ih h.2]
    rfl

/-! ## Names -/

/-- Reads the name behind rest marks and modifiers. What is left of the segment starts at byte
`position`. -/
def readNameFrom : Nat → Nat → Text → Except Trap (Option (Nat × Text))
  | 0, _, _ => .error .endless
  | fuel + 1, position, rest =>
    match (Piece.word "...").take rest with
    | some (_, after) => readNameFrom fuel (position + 3) after
    | none => do
      let word ← rest.cut ⟨0, identSize rest⟩
      let tail ← rest.cut ⟨word.size, rest.size⟩
      if String.ofList word ∈ parameterModifiers ∧ tail.head?.any isBlank = true then
        let after := trimStart tail
        let passed ← minus rest.size after.size
        readNameFrom fuel (position + passed) after
      else
        let name ← rest.cut ⟨0, identSize rest⟩
        return if name = [] ∨ name = "this".toList then none else some (position, name)

/-- The name that a segment declares, with its byte offset in the segment. -/
def readName (segment : Text) : Except Trap (Option (Nat × Text)) := do
  let rest := trimStart segment
  let position ← minus segment.size rest.size
  readNameFrom (segment.length + 1) position rest

/-- The identifier in front of a text and what follows it can be cut out. -/
theorem cut_identSize (t : Text) : t.cut ⟨0, identSize t⟩ = .ok (t.takeWhile isIdent) := by
  have h := cut_front (t.takeWhile isIdent) (t.dropWhile isIdent)
  rwa [List.takeWhile_append_dropWhile, ← identSize_eq] at h

theorem cut_after_ident (t : Text) :
    t.cut ⟨size (t.takeWhile isIdent), t.size⟩ = .ok (t.dropWhile isIdent) := by
  have h := cut_back (t.takeWhile isIdent) (t.dropWhile isIdent)
  rwa [List.takeWhile_append_dropWhile] at h

/-- The result of reading a name when `rest`, at byte `position`, is all that stands before it. -/
def nameAt (position : Nat) (rest : Text) : Option (Nat × Text) :=
  if rest.takeWhile isIdent = [] ∨ rest.takeWhile isIdent = "this".toList then none
  else some (position, rest.takeWhile isIdent)

/-- A modifier with blanks behind it, and what they are followed by. -/
theorem exists_of_modifier {t : Text} (h : StartsWithModifier t) :
    ∃ (word : String) (blanks : Text), word ∈ parameterModifiers ∧ blanks ≠ [] ∧
      (∀ c ∈ blanks, isBlank c = true) ∧
      (trimStart (t.dropWhile isIdent)).head?.any isBlank = false ∧
      t = word.toList ++ (blanks ++ trimStart (t.dropWhile isIdent)) := by
  obtain ⟨hword, htail⟩ := h
  refine ⟨_, (t.dropWhile isIdent).takeWhile isBlank, hword, ?_, ?_, ?_, ?_⟩
  · -- a modifier is followed by white space
    intro hempty
    cases hrest : t.dropWhile isIdent with
    | nil => simp [hrest] at htail
    | cons c u => simp_all
  · intro c hc
    exact List.mem_takeWhile_imp hc
  · have hnot := List.head?_dropWhile_not isBlank (t.dropWhile isIdent)
    rw [trimStart]
    cases hrest : (t.dropWhile isIdent).dropWhile isBlank with
    | nil => rfl
    | cons c u => simpa [hrest] using hnot
  · rw [String.toList_ofList, trimStart, List.takeWhile_append_dropWhile,
      List.takeWhile_append_dropWhile]

/-- From a place inside a segment on, the loop comes to the name that the segment declares. Each
round leaves a shorter text. -/
theorem readNameFrom_eq {fuel steps : Nat} {rest : Text} (hfuel : rest.length < fuel)
    (hsteps : rest.length ≤ steps) (position : Nat) :
    readNameFrom fuel position rest =
      .ok (nameAt (position + (size rest - size (skipParameterModifiers steps rest)))
        (skipParameterModifiers steps rest)) := by
  induction fuel generalizing steps rest position with
  | zero => omega
  | succ fuel ih =>
    -- one round: `lead` is passed over, and the skip of the model passes over it too
    have hround : ∀ {lead after : Text}, rest = lead ++ after → lead ≠ [] →
        (∀ n, skipParameterModifiers (n + 1) rest = skipParameterModifiers n after) →
        readNameFrom fuel (position + size lead) after =
          .ok (nameAt (position + (size rest - size (skipParameterModifiers steps rest)))
            (skipParameterModifiers steps rest)) := by
      intro lead after hrest hlead hskip
      have hlength : rest.length = lead.length + after.length := by rw [hrest, List.length_append]
      have hpos := List.length_pos_of_ne_nil hlead
      obtain ⟨n, rfl⟩ : ∃ n, steps = n + 1 := ⟨steps - 1, by omega⟩
      obtain ⟨a, ha, -⟩ := skipParameterModifiers_spec n after
      have hle : size (skipParameterModifiers n after) ≤ size after := by
        conv_rhs => rw [← ha, size_append]
        omega
      have hsteps' : after.length ≤ n := by omega
      rw [ih (by omega) hsteps', hskip, hrest, size_append]
      congr 2
      omega
    rw [readNameFrom]
    cases hdots : (Piece.word "...").take rest with
    | some taken =>
      obtain ⟨dots, after⟩ := taken
      have hparts := Piece.append_eq _ hdots
      obtain rfl : dots = "...".toList := Piece.take_word hdots
      exact hround hparts.symm (by decide) fun n => by
        rw [← hparts, skipParameterModifiers_rest]
    | none =>
      dsimp only
      rw [cut_identSize, Trap.ok_bind, cut_after_ident, Trap.ok_bind, Trap.ok_bind]
      split
      · rename_i hmodifier
        obtain ⟨word, blanks, hword, hne, hblanks, hstop, hrest⟩ :=
          exists_of_modifier hmodifier
        generalize trimStart (rest.dropWhile isIdent) = after at hstop hrest ⊢
        have hlead : rest = word.toList ++ blanks ++ after := by
          rw [hrest, List.append_assoc]
        have hminus : minus (size rest) (size after) = .ok (size (word.toList ++ blanks)) := by
          rw [hlead, size_append, minus_add]
        rw [hminus, Trap.ok_bind]
        exact hround hlead (by simp [hne]) fun n => by
          rw [hrest, skipParameterModifiers_modifier hword hne hblanks hstop]
      · rename_i hmodifier
        rw [skipParameterModifiers_eq_self hdots hmodifier, Nat.sub_self, Nat.add_zero]
        rfl

/-- A name is read without a trap, and it is the one that the segment declares. -/
theorem readName_eq (segment : Text) : readName segment = .ok (parameterName? segment) := by
  have hblanks : segment = segment.takeWhile isBlank ++ trimStart segment := by
    rw [trimStart, List.takeWhile_append_dropWhile]
  have hsize : size segment = size (segment.takeWhile isBlank) + size (trimStart segment) := by
    conv_lhs => rw [hblanks, size_append]
  have hlength : (trimStart segment).length ≤ segment.length := (List.dropWhile_suffix _).length_le
  -- the trimmed segment is a part of the segment, so the difference is not negative
  have hminus : minus (size segment) (size (trimStart segment)) =
      .ok (size (segment.takeWhile isBlank)) := by rw [hsize, minus_add]
  obtain ⟨a, ha, -⟩ := skipParameterModifiers_spec segment.length (trimStart segment)
  have hposition : size (segment.takeWhile isBlank) + (size (trimStart segment) -
      size (skipParameterModifiers segment.length (trimStart segment))) =
      size segment - size (skipParameterModifiers segment.length (trimStart segment)) := by
    have hle : size (trimStart segment) =
        size a + size (skipParameterModifiers segment.length (trimStart segment)) := by
      conv_lhs => rw [← ha, size_append]
    omega
  rw [readName, hminus, Trap.ok_bind, readNameFrom_eq (by omega) hlength, hposition]
  rfl

/-! ## Lines -/

/-- Index of the first line feed. -/
def firstFeed? : Text → Option Nat
  | [] => none
  | c :: t => if c = '\n' then some 0 else (firstFeed? t).map (c.utf8Size + ·)

/-- Index of the last line feed. -/
def lastFeed? : Text → Option Nat
  | [] => none
  | c :: t =>
    match lastFeed? t with
    | some i => some (c.utf8Size + i)
    | none => if c = '\n' then some 0 else none

/-- What is shown with a parameter at a byte: the head if it fits on one line, else the parameter's
line. -/
def matchedText (t : Text) (head : Span) (offset : Nat) : Except Trap Text := do
  let shown ← t.cut head
  if '\n' ∈ shown then
    let before ← t.cut ⟨0, offset⟩
    let after ← t.cut ⟨offset, t.size⟩
    let line ← t.cut
      ⟨(lastFeed? before).elim 0 (· + 1), (firstFeed? after).elim t.size (offset + ·)⟩
    return trim line
  else
    return trim shown

/-- The first line of a text ends at its first line feed. -/
theorem elim_firstFeed? (t : Text) (offset : Nat) :
    (firstFeed? t).elim (offset + size t) (offset + ·) =
      offset + size (t.takeWhile (· ≠ '\n')) := by
  induction t generalizing offset with
  | nil => rfl
  | cons c t ih =>
    rw [firstFeed?]
    by_cases hc : c = '\n'
    · rw [if_pos hc, List.takeWhile_cons_of_neg (by simpa using hc)]
      rfl
    · -- whether there is a feed further on or not, the offset moves on by `c`
      have hnext := ih (offset + c.utf8Size)
      rw [if_neg hc, List.takeWhile_cons_of_pos (by simpa using hc), size_cons, size_cons]
      cases hfeed : firstFeed? t with
      | none =>
        rw [hfeed] at hnext
        simpa [Nat.add_assoc] using hnext
      | some i =>
        rw [hfeed] at hnext
        simpa [Nat.add_assoc] using hnext

theorem lastFeed?_of_not_mem {t : Text} (h : '\n' ∉ t) : lastFeed? t = none := by
  induction t with
  | nil => rfl
  | cons c t ih =>
    rw [List.mem_cons, not_or] at h
    rw [lastFeed?, ih h.2]
    exact if_neg (Ne.symm h.1)

/-- The last line feed of a text is the one no other follows. -/
theorem lastFeed?_append {b : Text} (hb : '\n' ∉ b) (a : Text) :
    lastFeed? (a ++ '\n' :: b) = some (size a) := by
  induction a with
  | nil =>
    rw [List.nil_append, lastFeed?, lastFeed?_of_not_mem hb]
    rfl
  | cons c a ih => rw [List.cons_append, lastFeed?, ih, size_cons]

/-- The last line of a text starts behind its last line feed. -/
theorem exists_lastLine (t : Text) :
    ∃ x, t = x ++ (t.reverse.takeWhile (· ≠ '\n')).reverse ∧
      (lastFeed? t).elim 0 (· + 1) = size x := by
  by_cases h : '\n' ∈ t
  · obtain ⟨b, a, hsplit, hb⟩ := List.eq_append_cons_of_mem (List.mem_reverse.mpr h)
    have ht : t = a.reverse ++ '\n' :: b.reverse := by
      rw [← List.reverse_reverse t, hsplit]
      simp
    have hline : t.reverse.takeWhile (· ≠ '\n') = b := by
      rw [hsplit]
      refine takeWhile_append_of_stops ?_ (by simp)
      intro c hc
      rw [decide_eq_true_eq]
      rintro rfl
      exact hb hc
    refine ⟨a.reverse ++ ['\n'], by rw [hline, List.append_assoc]; exact ht, ?_⟩
    rw [ht, lastFeed?_append (by simpa using hb), size_append]
    rfl
  · -- the text is a single line
    have hline : t.reverse.takeWhile (· ≠ '\n') = t.reverse := by
      refine List.takeWhile_eq_self_iff.mpr ?_
      intro c hc
      rw [decide_eq_true_eq]
      rintro rfl
      exact h (List.mem_reverse.mp hc)
    refine ⟨[], by rw [hline, List.reverse_reverse, List.nil_append], ?_⟩
    rw [lastFeed?_of_not_mem h]
    rfl

/-- What is shown with a parameter is cut out without a trap, where the head can be cut out and the
parameter stands between two characters. -/
theorem matchedText_eq {t pre post shown : Text} {head : Span} (ht : t = pre ++ post)
    (hhead : t.cut head = .ok shown) :
    matchedText t head (size pre) = .ok (shownWith t shown (size pre)) := by
  obtain ⟨x, hpre, hstart⟩ := exists_lastLine pre
  have hpost := List.takeWhile_append_dropWhile (p := (decide <| · ≠ '\n')) (l := post)
  have hstop := elim_firstFeed? post (size pre)
  rw [← size_append, ← ht] at hstop
  have hbefore : t.cut ⟨0, size pre⟩ = .ok pre := by rw [ht, cut_front]
  have hafter : t.cut ⟨size pre, size t⟩ = .ok post := by
    rw [ht]
    exact cut_back pre post
  -- the line is the end of what stands before the parameter and the beginning of what follows
  have hline : t.cut ⟨size x, size pre + size (post.takeWhile (· ≠ '\n'))⟩ =
      .ok (lineAround t (size pre)) := by
    have hsize : size pre = size x + size (pre.reverse.takeWhile (· ≠ '\n')).reverse := by
      conv_lhs => rw [hpre, size_append]
    have h := cut_size x
      ((pre.reverse.takeWhile (· ≠ '\n')).reverse ++ post.takeWhile (· ≠ '\n'))
      (post.dropWhile (· ≠ '\n'))
    rw [List.append_assoc, hpost, ← List.append_assoc, ← hpre, ← ht, size_append,
      ← Nat.add_assoc, ← hsize] at h
    rw [h, lineAround, ht, takeBytes_size, dropBytes_size]
  rw [matchedText, hhead, Trap.ok_bind, shownWith]
  split
  · rw [hbefore, Trap.ok_bind, hafter, Trap.ok_bind, hstart, hstop, hline]
    rfl
  · rfl

/-! ## Lists -/

/-- The parameters of a list. -/
def collectList (t : Text) (l : ParameterList) : Except Trap (List Declaration) := do
  let list ← t.cut l.list
  let parts ← splitBytes list
  let declared ← parts.mapM fun s => do
    match ← readName s.text with
    | none => return none
    | some (position, name) =>
      let offset := l.list.start + s.start + position
      let matched ← matchedText t l.head offset
      return some (Declaration.mk name matched offset)
  return declared.filterMap id

/-- Both spans of a list that lies between parentheses can be cut out. -/
theorem ParameterList.StandsIn.cuts {l : ParameterList} {t : Text} (hl : l.StandsIn t) :
    t.cut l.head = .ok (t.slice l.head) ∧ t.cut l.list = .ok (t.slice l.list) := by
  obtain ⟨before, lead, list, tail, after, ht, hhead, hlist⟩ := hl
  -- the list starts one byte behind the head, at the opening parenthesis
  have hopen : size (before ++ lead) + 1 = size (before ++ lead ++ ['(']) := by
    rw [size_append (before ++ lead)]
    rfl
  refine ⟨cut_eq_slice (a := before) (by rw [ht]) hhead, ?_⟩
  refine cut_eq_slice (a := before ++ lead ++ ['(']) (u := list) (b := ')' :: tail ++ after) ?_ ?_
  · rw [ht]
    simp
  · rw [hlist, hopen]

/-- Where a list lies between parentheses, its parameters are collected without a trap. -/
theorem collectList_eq {t : Text} {l : ParameterList} (hl : l.StandsIn t) :
    collectList t l = .ok (listDeclarations t l) := by
  obtain ⟨hcutHead, hcutList⟩ := hl.cuts
  obtain ⟨before, lead, tail, after, ht, hhead, hstart⟩ := hl.slices
  rw [collectList, hcutList, Trap.ok_bind, splitBytes_eq, Trap.ok_bind,
    mapM_eq_ok (g := fun s => (parameterName? s.text).map fun p =>
      Declaration.mk p.2 (shownWith t (t.slice l.head) (l.list.start + s.start + p.1))
        (l.list.start + s.start + p.1)), Trap.ok_bind, List.filterMap_map]
  · rfl
  · intro s hs
    obtain ⟨a, b, hlist, hs, -⟩ := exists_of_mem_segments hs
    rw [readName_eq, Trap.ok_bind]
    cases hname : parameterName? s.text with
    | none => rfl
    | some p =>
      obtain ⟨position, name⟩ := p
      obtain ⟨-, x, y, htext, hposition, -⟩ := parameterName?_spec hname
      -- the name has a place in the segment, the segment in the list, and the list in the text
      have hpre : t = (before ++ (lead ++ ['(']) ++ a ++ x) ++
          (name ++ y ++ b ++ ')' :: tail ++ after) := by
        conv_lhs => rw [ht, hhead, hlist, htext]
        simp
      have hoffset : l.list.start + s.start + position =
          size (before ++ (lead ++ ['(']) ++ a ++ x) := by
        rw [hstart, hs, hposition, size_append _ x, size_append _ a]
      have hshown := matchedText_eq hpre hcutHead
      rw [← hoffset] at hshown
      dsimp only
      rw [hshown]
      rfl

/-! ## The detector -/

/-- The list behind a head that ends with its opening parenthesis; what is shown starts at byte
`shownFrom`. -/
def listBehind (t : Text) (shownFrom : Nat) (o : Occurrence) :
    Except Trap (Option ParameterList) := do
  let opened ← minus o.stop 1
  let closed? ← closingByte t opened
  return closed?.map fun closed => ⟨⟨shownFrom, closed + 1⟩, ⟨opened + 1, closed⟩⟩

/-- A list that a method's body follows. -/
def withBody (t : Text) (l : ParameterList) : Except Trap (Option ParameterList) := do
  let rest ← t.cut ⟨l.head.stop, t.size⟩
  return if hasBody rest then some l else none

/-- The list behind the head of a method, unless its name is one of a statement. -/
def methodListBehind (t : Text) (o : Occurrence) : Except Trap (Option ParameterList) := do
  if isCallableName o.found.name then
    match ← listBehind t o.nameStart o with
    | none => return none
    | some l => withBody t l
  else return none

/-- The list before the tail of an arrow. -/
def listBefore (t : Text) (o : Occurrence) : Except Trap (Option ParameterList) := do
  let opened? ← openingByte t o.start
  return opened?.map fun opened => ⟨⟨opened, o.stop⟩, ⟨opened + 1, o.start⟩⟩

/-- The parameters declared in a text, found with every operation checked. -/
def detectParameters (t : Text) : Except Trap (List Declaration) := do
  let functions ← (occurrences functionHeadShape t).mapM fun o => listBehind t o.start o
  let methods ← (occurrences methodHeadShape t).mapM (methodListBehind t)
  let arrows ← (occurrences arrowTailShape t).mapM (listBefore t)
  let lists := functions.filterMap id ++ methods.filterMap id ++ arrows.filterMap id
  let declared ← lists.mapM (collectList t)
  return Declaration.inOrder (declared.flatten ++ declarationsOf bareArrowShape t)

/-- A head ends with a parenthesis, so its partner is searched for without a trap. -/
theorem listBehind_eq {starts : Option Char → Bool} {lead name : Piece} {t : Text} {o : Occurrence}
    (h : o ∈ occurrences (.ofPieces starts lead name .openList) t) (shownFrom : Nat) :
    listBehind t shownFrom o = .ok (listAfterHead? t shownFrom o) := by
  obtain ⟨pre, x, post, ht, -, hstop⟩ := exists_of_mem_headOccurrences h
  generalize pre ++ o.found.lead ++ (o.found.name ++ x) = before at ht hstop
  rw [listBehind, listAfterHead?, hstop, minus_add, Trap.ok_bind, ht, closingByte_size,
    Trap.ok_bind, Nat.add_sub_cancel]
  cases closingParen (before ++ '(' :: post) (size before) <;> rfl

/-- A text can be cut behind a list that stands in it. -/
theorem ParameterList.StandsIn.cut_behind {l : ParameterList} {t : Text} (hl : l.StandsIn t) :
    t.cut ⟨l.head.stop, t.size⟩ = .ok (dropBytes l.head.stop t) := by
  obtain ⟨before, lead, list, tail, after, ht, hhead, -⟩ := hl
  generalize lead ++ '(' :: (list ++ ')' :: tail) = head at ht hhead
  rw [← List.append_assoc] at ht
  rw [← size_append] at hhead
  rw [ht, hhead, cut_back, dropBytes_size]

theorem methodListBehind_eq {t : Text} {o : Occurrence} (h : o ∈ occurrences methodHeadShape t) :
    methodListBehind t o = .ok (if isCallableName o.found.name then
      (listAfterHead? t o.nameStart o).filter fun l => hasBody (dropBytes l.head.stop t)
      else none) := by
  obtain ⟨pre, x, post, ht, hstart, hstop⟩ := exists_of_mem_headOccurrences h
  rw [methodListBehind]
  split
  · rw [listBehind_eq h, Trap.ok_bind]
    cases hl : listAfterHead? t o.nameStart o with
    | none => rfl
    | some l =>
      -- only a list that stands in the text can be looked behind without a trap
      have hstands : l.StandsIn t := by
        have hname : o.nameStart = size (pre ++ o.found.lead) := by
          rw [Occurrence.nameStart, hstart, size_append]
        rw [ht, hname] at hl
        rw [ht]
        exact standsIn_of_listAfterHead? hstop hl
      dsimp only
      rw [withBody, hstands.cut_behind, Trap.ok_bind, Option.filter_some]
      rfl
  · rfl

theorem listBefore_eq {t : Text} {o : Occurrence} (h : o ∈ occurrences arrowTailShape t) :
    listBefore t o = .ok ((openingParen t o.start).map fun opened =>
      ⟨⟨opened, o.stop⟩, ⟨opened + 1, o.start⟩⟩) := by
  obtain ⟨pre, tail, post, ht, hstart, -⟩ := exists_of_mem_arrowOccurrences h
  rw [listBefore, hstart, ht, openingByte_size]
  rfl

/-- The parameter detector cannot fail: no count is lowered below zero, no range of bytes is out of
order, out of the text or inside a character, and what it finds are the parameters of the text. -/
theorem parameter_detector_meets_no_trap (t : Text) :
    detectParameters t = .ok (parameterDeclarations t) := by
  -- none of the four passes meets a trap, so each is a plain map
  have hfunctions := mapM_eq_ok (l := occurrences functionHeadShape t)
    fun o ho => listBehind_eq ho o.start
  have hmethods := mapM_eq_ok (l := occurrences methodHeadShape t) fun o ho => methodListBehind_eq ho
  have harrows := mapM_eq_ok (l := occurrences arrowTailShape t) fun o ho => listBefore_eq ho
  have hlists := mapM_eq_ok (l := parameterLists t)
    fun l hl => collectList_eq (standsIn_of_mem_parameterLists hl)
  rw [detectParameters, hfunctions, Trap.ok_bind, hmethods, Trap.ok_bind, harrows, Trap.ok_bind,
    List.filterMap_map, List.filterMap_map, List.filterMap_map]
  show (List.mapM (collectList t) (parameterLists t) >>= _) = _
  rw [hlists, Trap.ok_bind, parameterDeclarations, List.flatMap_def]
  rfl

end NamingLint
