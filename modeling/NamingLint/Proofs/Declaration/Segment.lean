import NamingLint.Proofs.Declaration.Contract

/-!
# NamingLint — parameter lists are read exactly

A parameter list is written segment by segment, with a comma between any two. A segment declares a
name behind rest marks and modifiers, or it is passed over: a destructured parameter, `this`, or
nothing. As long as the brackets of each segment are closed and its own commas stand inside them,
the list is cut where it was joined, and each name is found where it was written.

* `closesFrom` — the brackets of a text are closed, and its commas stand inside them.
* `IsLead` — what may stand before a name.
* `StartsWithModifier` — what is passed over as a modifier.
* `NamedSegment`, `SkippedSegment`, `WrittenSegment` — the segments of a list, as they are written.
* `places` — the names of segments, each with the text before it.

Main results:

* `cutAtCommas_intercalate` — closed segments are cut apart as they were joined.
* `NamedSegment.parameterName?_text`, `SkippedSegment.parameterName?_text` — what one segment
  declares.
* `ordered_listDeclarations` — the parameters of a list come with increasing offsets.
* `parameters_are_read_exactly` — the names of a list, each at its place in the text.
-/

namespace NamingLint

open Text

/-! ## Cuts -/

/-- From a bracket depth on, does the text come back to depth zero, and do its commas all stand
inside brackets? -/
def closesFrom (depth : Nat) (previous : Option Char) : Text → Bool
  | [] => depth = 0
  | c :: t => !(c = ',' && depth = 0) && closesFrom (depthAfter depth previous c) (some c) t

/-- The character before matters only if it makes an arrow of an angle bracket. -/
theorem closesFrom_of_ne {previous : Option Char} (h : previous ≠ some '=') (depth : Nat)
    (t : Text) : closesFrom depth previous t = closesFrom depth none t := by
  cases t with
  | nil => rfl
  | cons c t => simp [closesFrom, depthAfter, h]

/-- A text that closes has no comma outside of brackets, and its rest closes from the next depth on.
-/
theorem closesFrom_cons {depth : Nat} {previous : Option Char} {c : Char} {t : Text}
    (h : closesFrom depth previous (c :: t) = true) :
    ¬ (c = ',' ∧ depth = 0) ∧ closesFrom (depthAfter depth previous c) (some c) t = true := by
  simpa [closesFrom, imp_iff_not_or] using h

/-- A closed text is cut off whole at the comma behind it. -/
theorem cutAtCommas_append {s : Text} {depth : Nat} {previous : Option Char}
    (h : closesFrom depth previous s = true) (t : Text) :
    cutAtCommas depth previous (s ++ ',' :: t) = s :: cutAtCommas 0 (some ',') t := by
  induction s generalizing depth previous with
  | nil =>
    obtain rfl : depth = 0 := by simpa [closesFrom] using h
    rw [List.nil_append, cutAtCommas, if_pos ⟨rfl, rfl⟩]
  | cons c s ih =>
    obtain ⟨hcomma, hrest⟩ := closesFrom_cons h
    rw [List.cons_append, cutAtCommas, if_neg hcomma, ih hrest]

/-- A text without commas outside of brackets is not cut. -/
theorem cutAtCommas_of_closesFrom {s : Text} {depth : Nat} {previous : Option Char}
    (h : closesFrom depth previous s = true) : cutAtCommas depth previous s = [s] := by
  induction s generalizing depth previous with
  | nil => rfl
  | cons c s ih =>
    obtain ⟨hcomma, hrest⟩ := closesFrom_cons h
    rw [cutAtCommas, if_neg hcomma, ih hrest]

/-- Closed segments are cut apart as they were joined. -/
theorem cutAtCommas_intercalate {previous : Option Char} (hprevious : previous ≠ some '=')
    {s : Text} {ss : List Text} (h : ∀ r ∈ s :: ss, closesFrom 0 none r = true) :
    cutAtCommas 0 previous ([','].intercalate (s :: ss)) = s :: ss := by
  have hs : closesFrom 0 previous s = true := by
    rw [closesFrom_of_ne hprevious]
    exact h s List.mem_cons_self
  induction ss generalizing previous s with
  | nil => rw [List.intercalate_singleton, cutAtCommas_of_closesFrom hs]
  | cons r ss ih =>
    rw [List.forall_mem_cons] at h
    have hr : closesFrom 0 (some ',') r = true := by
      rw [closesFrom_of_ne (by decide)]
      exact h.2 r List.mem_cons_self
    -- behind the comma the cut goes on as at the start of the list
    rw [List.intercalate_cons_cons, List.append_assoc, List.singleton_append,
      cutAtCommas_append hs, ih (by decide) h.2 hr]

/-! ## Names -/

/-- What may stand before the name of a parameter: rest marks, and modifiers with blanks behind
them. -/
inductive IsLead : Text → Prop where
  | nil : IsLead []
  | rest {lead : Text} (more : IsLead lead) : IsLead ("...".toList ++ lead)
  | modifier {word : String} {blanks lead : Text} (isModifier : word ∈ parameterModifiers)
    (blanks_ne_nil : blanks ≠ []) (isBlank_of_mem : ∀ c ∈ blanks, isBlank c = true)
    (more : IsLead lead) : IsLead (word.toList ++ (blanks ++ lead))

theorem Piece.take_word_append (w : String) (t : Text) :
    (Piece.word w).take (w.toList ++ t) = some (w.toList, t) := by
  simp [Piece.word]

/-- A run goes up to what is not in its class. -/
theorem takeWhile_append_of_stops {p : Char → Bool} {a t : Text} (ha : ∀ c ∈ a, p c = true)
    (ht : t.head?.any p = false) : (a ++ t).takeWhile p = a := by
  have hstop : t.takeWhile p = [] := by
    cases t with
    | nil => rfl
    | cons c t => exact List.takeWhile_cons_of_neg (by simpa using ht)
  rw [List.takeWhile_append_of_pos ha, hstop, List.append_nil]

/-- What stops a run is what is left behind it. -/
theorem dropWhile_append_of_stops {p : Char → Bool} {a t : Text} (ha : ∀ c ∈ a, p c = true)
    (ht : t.head?.any p = false) : (a ++ t).dropWhile p = t := by
  have hsplit := List.takeWhile_append_dropWhile (p := p) (l := a ++ t)
  rw [takeWhile_append_of_stops ha ht] at hsplit
  exact List.append_cancel_left hsplit

theorem not_mem_of_all {p : Char → Bool} {a : Text} (ha : ∀ c ∈ a, p c = true) {c : Char}
    (hc : p c = false) : c ∉ a := by
  intro hmem
  rw [ha c hmem] at hc
  exact absurd hc (by decide)

/-- A text is cut in one way only at the first of some character. -/
theorem append_cons_inj_of_first {c : Char} {a b a' b' : Text} (ha : c ∉ a) (ha' : c ∉ a')
    (h : a ++ c :: b = a' ++ c :: b') : a = a' ∧ b = b' := by
  -- what stands before the first `c` can be read off the text
  have hcut : ∀ {x y : Text}, c ∉ x → (x ++ c :: y).takeWhile (· ≠ c) = x := by
    intro x y hx
    refine takeWhile_append_of_stops ?_ (by simp)
    intro d hd
    rw [decide_eq_true_eq]
    rintro rfl
    exact hx hd
  have heq : a = a' := by rw [← hcut (y := b) ha, h, hcut ha']
  subst heq
  exact ⟨rfl, (List.cons.inj (List.append_cancel_left h)).2⟩

theorem Piece.take_many_append {p : Char → Bool} {a t : Text} (ha : ∀ c ∈ a, p c = true)
    (ht : t.head?.any p = false) : (Piece.many p).take (a ++ t) = some (a, t) := by
  simp only [Piece.many, takeWhile_append_of_stops ha ht, dropWhile_append_of_stops ha ht]

/-- A run that must take something is taken as far as its class goes. -/
theorem Piece.take_many1_append {p : Char → Bool} {a t : Text} (hne : a ≠ [])
    (ha : ∀ c ∈ a, p c = true) (ht : t.head?.any p = false) :
    (Piece.many1 p).take (a ++ t) = some (a, t) := by
  obtain ⟨c, b, rfl⟩ := List.exists_cons_of_ne_nil hne
  have hc : p c = true := ha c List.mem_cons_self
  simp only [Piece.many1, takeWhile_append_of_stops ha ht, dropWhile_append_of_stops ha ht]
  simp [hc]

/-- Without a dot in front there is no rest mark. -/
theorem take_rest_eq_none {t : Text} (h : t.head? ≠ some '.') :
    (Piece.word "...").take t = none := by
  have hprefix : ¬ "...".toList.isPrefixOf t = true := by
    rw [List.isPrefixOf_iff_prefix]
    rintro ⟨u, rfl⟩
    exact h rfl
  simp only [Piece.word, if_neg hprefix]

/-- Does a modifier with a blank behind it stand in front? -/
def StartsWithModifier (t : Text) : Prop :=
  String.ofList (t.takeWhile isIdent) ∈ parameterModifiers ∧
    (t.dropWhile isIdent).head?.any isBlank = true

/-- A name is taken for a modifier if it is one of the words and white space stands behind it. -/
theorem startsWithModifier_append {name tail : Text} (hname : IsIdentifier name)
    (htail : tail.head?.any isIdent = false) :
    StartsWithModifier (name ++ tail) ↔
      String.ofList name ∈ parameterModifiers ∧ tail.head?.any isBlank = true := by
  rw [StartsWithModifier, takeWhile_append_of_stops hname.all_ident htail,
    dropWhile_append_of_stops hname.all_ident htail]

/-- Nothing is passed over where neither a rest mark nor a modifier with a blank stands in front. -/
theorem skipParameterModifiers_eq_self {t : Text} (hrest : (Piece.word "...").take t = none)
    (hword : ¬ StartsWithModifier t) (fuel : Nat) : skipParameterModifiers fuel t = t := by
  cases fuel with
  | zero => rfl
  | succ fuel =>
    rw [skipParameterModifiers, hrest]
    dsimp only
    split
    · rfl
    · rename_i taken rest htake
      rw [if_neg]
      intro hmodifier
      refine hword ⟨by simpa using hmodifier, ?_⟩
      -- the blanks that were taken stand behind the identifier
      obtain ⟨a, r, b, hident, hblank, -⟩ := Piece.take_andThen htake
      simp only [Piece.identifier, Piece.many1] at hident
      split at hident
      · cases hident
        simp only [Piece.seq, Piece.blanks1, Piece.many1] at hblank
        split at hblank
        · assumption
        · cases hblank
      · cases hident

/-- The rest mark is skipped, with nothing asked of what follows. -/
theorem skipParameterModifiers_rest (fuel : Nat) (t : Text) :
    skipParameterModifiers (fuel + 1) ("...".toList ++ t) = skipParameterModifiers fuel t := by
  rw [skipParameterModifiers, Piece.take_word_append]

/-- An identifier starts with no other character. -/
theorem Text.IsIdentifier.head?_append_ne {w : Text} (h : IsIdentifier w) {c : Char}
    (hc : isIdent c = false) (t : Text) : (w ++ t).head? ≠ some c := by
  obtain ⟨d, v, rfl, -⟩ := h.exists_cons
  intro hhead
  cases hhead
  exact h.not_mem hc List.mem_cons_self

/-- Every modifier is a word of identifier characters. -/
theorem isIdentifier_of_modifier {word : String} (h : word ∈ parameterModifiers) :
    IsIdentifier word.toList := by
  -- the words are few, so all of them are looked at
  have hall : parameterModifiers.all (fun w => w.toList ≠ [] && w.toList.all isIdent) = true := by
    decide
  have hword := List.all_eq_true.mp hall word h
  simp only [Bool.and_eq_true, decide_eq_true_eq, List.all_eq_true] at hword
  exact ⟨hword.1, hword.2⟩

/-- A modifier and the blanks behind it are skipped. -/
theorem skipParameterModifiers_modifier {word : String} {blanks t : Text}
    (hword : word ∈ parameterModifiers) (hne : blanks ≠ [])
    (hblanks : ∀ c ∈ blanks, isBlank c = true) (ht : t.head?.any isBlank = false) (fuel : Nat) :
    skipParameterModifiers (fuel + 1) (word.toList ++ (blanks ++ t)) =
      skipParameterModifiers fuel t := by
  have hident := isIdentifier_of_modifier hword
  -- the blanks end the word, and what follows ends the blanks
  have hstop : (blanks ++ t).head?.any isIdent = false := by
    obtain ⟨c, b, rfl⟩ := List.exists_cons_of_ne_nil hne
    exact not_isIdent_of_isBlank (hblanks c List.mem_cons_self)
  have hdot : (word.toList ++ (blanks ++ t)).head? ≠ some '.' :=
    hident.head?_append_ne (by decide) _
  have htake : (Piece.seq [.identifier, .blanks1]).take (word.toList ++ (blanks ++ t)) =
      some (word.toList ++ blanks, t) := by
    simp only [Piece.seq, Piece.andThen, Piece.identifier, Piece.blanks1,
      Piece.take_many1_append hident.ne_nil hident.all_ident hstop,
      Piece.take_many1_append hne hblanks ht]
  -- no rest mark stands here, so the word is looked up
  rw [skipParameterModifiers, take_rest_eq_none hdot, htake,
    takeWhile_append_of_stops hident.all_ident hstop]
  simp [hword]

/-- No blank stands in front of a lead. -/
theorem IsLead.head?_append {lead : Text} (h : IsLead lead) {t : Text}
    (ht : t.head?.any isBlank = false) : (lead ++ t).head?.any isBlank = false := by
  cases h with
  | nil => exact ht
  | rest => rfl
  | modifier hword =>
    obtain ⟨c, v, hc, hblank⟩ := (isIdentifier_of_modifier hword).exists_cons
    rw [hc]
    exact hblank

/-- A lead is passed over. Each of its parts takes one unit of the fuel and has a character. -/
theorem skipParameterModifiers_lead {lead : Text} (h : IsLead lead) {t : Text}
    (hblank : t.head?.any isBlank = false) (hdot : t.head? ≠ some '.')
    (hword : ¬ StartsWithModifier t) {fuel : Nat} (hfuel : lead.length ≤ fuel) :
    skipParameterModifiers fuel (lead ++ t) = t := by
  induction h generalizing fuel with
  | nil => exact skipParameterModifiers_eq_self (take_rest_eq_none hdot) hword fuel
  | @rest lead hlead ih =>
    -- each part of the lead takes one round
    have hlength : ("...".toList ++ lead).length = 3 + lead.length := List.length_append
    obtain ⟨fuel, rfl⟩ : ∃ n, fuel = n + 1 := ⟨fuel - 1, by omega⟩
    rw [List.append_assoc, skipParameterModifiers_rest, ih (by omega)]
  | @modifier word blanks lead hmodifier hne hblanks hlead ih =>
    have hpos : 0 < blanks.length := List.length_pos_of_ne_nil hne
    have hlength : lead.length < fuel := by
      rw [List.length_append, List.length_append] at hfuel
      omega
    obtain ⟨fuel, rfl⟩ : ∃ n, fuel = n + 1 := ⟨fuel - 1, by omega⟩
    rw [List.append_assoc, List.append_assoc,
      skipParameterModifiers_modifier hmodifier hne hblanks (hlead.head?_append hblank),
      ih (by omega)]

theorem trimStart_append {blanks t : Text} (hblanks : ∀ c ∈ blanks, isBlank c = true)
    (ht : t.head?.any isBlank = false) : trimStart (blanks ++ t) = t :=
  dropWhile_append_of_stops hblanks ht

/-- The identifier behind blanks and a lead is the name of a segment, unless it is missing or
`this`. -/
theorem parameterName?_append {blanks lead t : Text} (hblanks : ∀ c ∈ blanks, isBlank c = true)
    (hlead : IsLead lead) (hblank : t.head?.any isBlank = false) (hdot : t.head? ≠ some '.')
    (hword : ¬ StartsWithModifier t) :
    parameterName? (blanks ++ lead ++ t) =
      if t.takeWhile isIdent = [] ∨ t.takeWhile isIdent = "this".toList then none
      else some (size (blanks ++ lead), t.takeWhile isIdent) := by
  -- the lead is skipped, and nothing behind it
  have hrest : skipParameterModifiers (blanks ++ lead ++ t).length
      (trimStart (blanks ++ lead ++ t)) = t := by
    have hfuel : lead.length ≤ (blanks ++ lead ++ t).length := by
      simp only [List.length_append]
      omega
    rw [List.append_assoc blanks] at hfuel ⊢
    rw [trimStart_append hblanks (hlead.head?_append hblank),
      skipParameterModifiers_lead hlead hblank hdot hword hfuel]
  simp only [parameterName?, hrest, size_append _ t, Nat.add_sub_cancel]

/-- An identifier that is not taken for a modifier is the name of its segment. -/
theorem parameterName?_identifier {blanks lead name tail : Text}
    (hblanks : ∀ c ∈ blanks, isBlank c = true) (hlead : IsLead lead) (hname : IsIdentifier name)
    (hthis : name ≠ "this".toList) (htail : tail.head?.any isIdent = false)
    (hword : ¬ StartsWithModifier (name ++ tail)) :
    parameterName? (blanks ++ lead ++ (name ++ tail)) = some (size (blanks ++ lead), name) := by
  have hblank : (name ++ tail).head?.any isBlank = false := by
    obtain ⟨c, v, hc, hblank⟩ := hname.exists_cons
    rw [hc]
    exact hblank
  have hdot : (name ++ tail).head? ≠ some '.' := hname.head?_append_ne (by decide) _
  rw [parameterName?_append hblanks hlead hblank hdot hword,
    takeWhile_append_of_stops hname.all_ident htail, if_neg (not_or.mpr ⟨hname.ne_nil, hthis⟩)]

/-! ## Segments -/

/-- A segment that declares a name. -/
structure NamedSegment where
  blanks : Text
  /-- Rest marks and modifiers. -/
  lead : Text
  name : Text
  /-- A type, a default, and whatever else follows the name. -/
  tail : Text
  isBlank_of_mem : ∀ c ∈ blanks, isBlank c = true
  isLead : IsLead lead
  isIdentifier : IsIdentifier name
  ne_this : name ≠ "this".toList
  not_modifier : String.ofList name ∉ parameterModifiers
  tail_apart : tail.head?.any isIdent = false

namespace NamedSegment

/-- The segment as it is written. -/
def text (s : NamedSegment) : Text :=
  s.blanks ++ s.lead ++ (s.name ++ s.tail)

/-- The name of the segment is found where it stands. -/
theorem parameterName?_text (s : NamedSegment) :
    parameterName? s.text = some (size (s.blanks ++ s.lead), s.name) := by
  have hword : ¬ StartsWithModifier (s.name ++ s.tail) := by
    rw [startsWithModifier_append s.isIdentifier s.tail_apart]
    exact fun h => s.not_modifier h.1
  exact parameterName?_identifier s.isBlank_of_mem s.isLead s.isIdentifier s.ne_this s.tail_apart
    hword

end NamedSegment

/-- A segment that declares nothing: it is empty, destructures, or is about `this`. -/
structure SkippedSegment where
  blanks : Text
  rest : Text
  isBlank_of_mem : ∀ c ∈ blanks, isBlank c = true
  skipped : rest = [] ∨ rest.head? = some '\x7b' ∨ rest.head? = some '[' ∨
    ∃ tail, rest = "this".toList ++ tail ∧ tail.head?.any isIdent = false

namespace SkippedSegment

/-- The segment as it is written. -/
def text (s : SkippedSegment) : Text :=
  s.blanks ++ s.rest

/-- There is no identifier in front of the rest, or it is `this`. -/
theorem takeWhile_rest (s : SkippedSegment) :
    s.rest.takeWhile isIdent = [] ∨ s.rest.takeWhile isIdent = "this".toList := by
  rcases s.skipped with h | h | h | ⟨tail, h, htail⟩
  · exact .inl (by rw [h]; rfl)
  · obtain ⟨t, ht⟩ := List.head?_eq_some_iff.mp h
    exact .inl (by rw [ht]; rfl)
  · obtain ⟨t, ht⟩ := List.head?_eq_some_iff.mp h
    exact .inl (by rw [ht]; rfl)
  · have hthis : "this".toList.all isIdent = true := by decide
    exact .inr (by rw [h]; exact takeWhile_append_of_stops (List.all_eq_true.mp hthis) htail)

/-- What is left of a skipped segment starts with no blank and no dot. -/
theorem head?_rest (s : SkippedSegment) :
    s.rest.head?.any isBlank = false ∧ s.rest.head? ≠ some '.' := by
  -- a skipped segment is a pattern of one of two kinds, empty, or a `this`
  rcases s.skipped with h | h | h | ⟨tail, h, -⟩ <;> rw [h]
  · decide
  · decide
  · decide
  · show Option.any isBlank (some 't') = false ∧ some 't' ≠ some '.'
    decide

/-- No name is found. -/
theorem parameterName?_text (s : SkippedSegment) : parameterName? s.text = none := by
  have hword : String.ofList (s.rest.takeWhile isIdent) ∉ parameterModifiers := by
    rcases s.takeWhile_rest with h | h <;> rw [h] <;> decide
  have h := parameterName?_append s.isBlank_of_mem .nil s.head?_rest.1 s.head?_rest.2
    (fun h => hword h.1)
  rw [if_pos s.takeWhile_rest, List.append_nil] at h
  exact h

end SkippedSegment

/-- A segment of a parameter list, as it is written. -/
inductive WrittenSegment where
  | named (s : NamedSegment)
  | skipped (s : SkippedSegment)

namespace WrittenSegment

/-- The segment as it is written. -/
def text : WrittenSegment → Text
  | named s => s.text
  | skipped s => s.text

/-- The name that the segment declares. -/
def name? : WrittenSegment → Option Text
  | named s => some s.name
  | skipped _ => none

/-- The segments with a comma between any two. -/
def joined (ss : List WrittenSegment) : Text :=
  [','].intercalate (ss.map text)

end WrittenSegment

open WrittenSegment

/-- The names that segments declare, in order, each after the text that stands before it, if the
segments stand behind `before`. -/
def places (before : Text) : List WrittenSegment → List (Text × Text)
  | [] => []
  | .named s :: ss =>
    (before ++ (s.blanks ++ s.lead), s.name) :: places (before ++ (s.text ++ [','])) ss
  | .skipped s :: ss => places (before ++ (s.text ++ [','])) ss

/-- The names at their places are those of the segments that have one. -/
theorem map_snd_places (before : Text) (ss : List WrittenSegment) :
    (places before ss).map Prod.snd = ss.filterMap name? := by
  fun_induction places before ss with
  | case1 => rfl
  | case2 before s ss ih => rw [List.map_cons, ih]; rfl
  | case3 before s ss ih => rw [ih]; rfl

theorem joined_cons_of_ne_nil (s : WrittenSegment) {ss : List WrittenSegment} (h : ss ≠ []) :
    joined (s :: ss) = s.text ++ [','] ++ joined ss := by
  rw [joined, List.map_cons, List.intercalate_cons_of_ne_nil (by simpa using h), joined]

theorem joined_singleton (s : WrittenSegment) : joined [s] = s.text := by
  rw [joined, List.map_singleton, List.intercalate_singleton]

/-- The first segment stands in front. -/
theorem text_prefix_joined (s : WrittenSegment) (ss : List WrittenSegment) :
    s.text <+: joined (s :: ss) := by
  by_cases h : ss = []
  · exact ⟨[], by rw [h, joined_singleton, List.append_nil]⟩
  · rw [joined_cons_of_ne_nil s h, List.append_assoc]
    exact List.prefix_append _ _

/-- A name of the other segments stands behind the first one and its comma. -/
theorem prefix_of_later {before u : Text} (s : WrittenSegment) {ss : List WrittenSegment}
    (hne : ss ≠ []) (h : u <+: before ++ (s.text ++ [',']) ++ joined ss) :
    u <+: before ++ joined (s :: ss) := by
  rwa [joined_cons_of_ne_nil s hne, ← List.append_assoc]

/-- Each name stands behind what is given as the text before it. -/
theorem prefix_of_mem_places {before : Text} {ss : List WrittenSegment} {p : Text × Text}
    (h : p ∈ places before ss) : p.1 ++ p.2 <+: before ++ joined ss := by
  fun_induction places before ss with
  | case1 => cases h
  | case2 before s ss ih =>
    rcases List.mem_cons.mp h with rfl | h
    · -- the first name, or one of a later segment
      have htext : s.blanks ++ s.lead ++ s.name <+: s.text := ⟨s.tail, by simp [NamedSegment.text]⟩
      rw [List.append_assoc before, List.prefix_append_right_inj]
      exact htext.trans (text_prefix_joined (.named s) ss)
    · exact prefix_of_later (.named s) (by rintro rfl; cases h) (ih h)
  | case3 before s ss ih => exact prefix_of_later (.skipped s) (by rintro rfl; cases h) (ih h)

/-! ## Lists -/

/-- The parameters of a list, by name and offset. -/
theorem map_listDeclarations (t : Text) (l : ParameterList) :
    (listDeclarations t l).map (fun d => (d.name, d.offset)) =
      (segments (t.slice l.list)).filterMap fun s =>
        (parameterName? s.text).map fun p => (p.2, l.list.start + s.start + p.1) := by
  rw [listDeclarations, List.map_filterMap]
  congr 1
  funext s
  rw [Option.map_map]
  rfl

/-- The next segment starts behind the comma, both in the list and in the text. -/
theorem size_before_next {base start : Nat} {before : Text} (h : size before = base + start)
    (s : Text) : size (before ++ (s ++ [','])) = base + (start + size s + 1) := by
  have hcomma : ','.utf8Size = 1 := rfl
  rw [size_append, size_append, size_cons, size_nil, hcomma, h]
  omega

/-- Offsets are counted from the start of the list in the pass, and in the whole text by `places`. -/
theorem filterMap_withStarts {base start : Nat} {before : Text} {ss : List WrittenSegment}
    (hbefore : size before = base + start) :
    (withStarts start (ss.map text)).filterMap (fun s =>
        (parameterName? s.text).map fun p => (p.2, base + s.start + p.1)) =
      (places before ss).map fun p => (p.2, size p.1) := by
  fun_induction places before ss generalizing start with
  | case1 => rfl
  | case2 before s ss ih =>
    rw [List.map_cons, List.map_cons, withStarts, ← ih (size_before_next hbefore s.text),
      size_append, hbefore]
    exact List.filterMap_cons_some (by rw [WrittenSegment.text, s.parameterName?_text]; rfl)
  | case3 before s ss ih =>
    rw [List.map_cons, withStarts, ← ih (size_before_next hbefore s.text)]
    -- a skipped segment has no name and takes no place
    exact List.filterMap_cons_none (by rw [WrittenSegment.text, s.parameterName?_text]; rfl)

/-- The segments of a list are those it was joined of. -/
theorem segments_joined {s : WrittenSegment} {ss : List WrittenSegment}
    (h : ∀ r ∈ s :: ss, closesFrom 0 none r.text = true) :
    segments (joined (s :: ss)) = withStarts 0 ((s :: ss).map text) := by
  rw [segments, joined, List.map_cons, cutAtCommas_intercalate (by decide)]
  simpa using h

/-- In a list whose segments close, the declarations are the names at their places. -/
theorem map_listDeclarations_joined {before after : Text} {head : Span} {ss : List WrittenSegment}
    (h : ∀ s ∈ ss, closesFrom 0 none s.text = true) :
    (listDeclarations (before ++ (joined ss ++ after))
        ⟨head, ⟨size before, size before + size (joined ss)⟩⟩).map (fun d => (d.name, d.offset)) =
      (places before ss).map fun p => (p.2, size p.1) := by
  rw [map_listDeclarations, slice_size]
  cases ss with
  | nil => rfl
  | cons s ss => rw [segments_joined h, filterMap_withStarts rfl]

/-! ## Order -/

/-- No segment starts before the first one. -/
theorem start_le_of_mem_withStarts {start : Nat} {ps : List Text} {s : Segment}
    (h : s ∈ withStarts start ps) : start ≤ s.start := by
  obtain ⟨a, -, -, hstart, -⟩ := exists_of_mem_withStarts h
  omega

/-- Segments follow one another, with at least a comma between them. -/
theorem pairwise_withStarts (start : Nat) (ps : List Text) :
    (withStarts start ps).Pairwise fun s r => s.start + size s.text < r.start := by
  induction ps generalizing start with
  | nil => exact .nil
  | cons p ps ih =>
    rw [withStarts, List.pairwise_cons]
    refine ⟨fun r hr => ?_, ih _⟩
    -- all later ones start behind the next comma
    have hle := start_le_of_mem_withStarts hr
    dsimp only
    omega

/-- A name stands inside its segment. -/
theorem position_le_of_parameterName? {segment name : Text} {position : Nat}
    (h : parameterName? segment = some (position, name)) : position ≤ size segment := by
  obtain ⟨-, a, b, htext, hposition, -⟩ := parameterName?_spec h
  rw [htext, hposition, size_append, size_append]
  omega

/-- The parameters of a list come with increasing offsets. -/
theorem ordered_listDeclarations (t : Text) (l : ParameterList) :
    Declaration.Ordered (listDeclarations t l) := by
  rw [listDeclarations, Declaration.Ordered, List.pairwise_filterMap]
  refine (pairwise_withStarts 0 _).imp ?_
  intro s r hsr d hd e he
  obtain ⟨⟨position, name⟩, hname, rfl⟩ := Option.map_eq_some_iff.mp hd
  obtain ⟨⟨position', name'⟩, -, rfl⟩ := Option.map_eq_some_iff.mp he
  -- the next segment starts behind the one that the name stands in
  have hinside := position_le_of_parameterName? hname
  dsimp only
  omega

/-- Declarations that come in order stay as they are. -/
theorem Declaration.inOrder_eq_self {ds : List Declaration} (h : Ordered ds) : inOrder ds = ds := by
  induction ds with
  | nil => rfl
  | cons d ds ih =>
    obtain ⟨hfirst, hrest⟩ := List.pairwise_cons.mp h
    rw [inOrder, ih hrest]
    cases ds with
    | nil => rfl
    | cons e es => rw [place, if_pos (hfirst e List.mem_cons_self)]

/-- Each segment declares what is written in it, whatever stands around the list: the parameters of
a list that is joined of closed segments are the names of its named segments, in their order and
each at the offset where it stands in the text. No name is recorded twice and none is left out. -/
theorem parameters_are_read_exactly {ss : List WrittenSegment}
    (hclosed : ∀ s ∈ ss, closesFrom 0 none s.text = true) (before after : Text) (head : Span) :
    (Declaration.inOrder (listDeclarations (before ++ (joined ss ++ after))
        ⟨head, ⟨size before, size before + size (joined ss)⟩⟩)).map (fun d => (d.name, d.offset)) =
      (places before ss).map (fun p => (p.2, size p.1)) ∧
    (places before ss).map Prod.snd = ss.filterMap name? ∧
    ∀ p ∈ places before ss, p.1 ++ p.2 <+: before ++ (joined ss ++ after) := by
  refine ⟨?_, map_snd_places before ss, ?_⟩
  · rw [Declaration.inOrder_eq_self (ordered_listDeclarations _ _),
      map_listDeclarations_joined hclosed]
  · intro p hp
    rw [← List.append_assoc]
    exact (prefix_of_mem_places hp).trans (List.prefix_append _ _)

/-- A list with modifiers, a rest mark, commas inside brackets, an arrow, and segments without a
name. -/
def mixedParameters : List WrittenSegment :=
  [.named
    { blanks := []
      lead := "private".toList ++ (" ".toList ++ ("readonly".toList ++ ("  ".toList ++ [])))
      name := "userRepo".toList
      tail := ": Map<string, number>".toList
      isBlank_of_mem := List.forall_mem_nil _
      isLead := .modifier (by decide) (by decide) (List.all_eq_true.mp (by decide))
        (.modifier (by decide) (by decide) (List.all_eq_true.mp (by decide)) .nil)
      isIdentifier := ⟨by decide, List.all_eq_true.mp (by decide)⟩
      ne_this := by decide
      not_modifier := by decide
      tail_apart := by decide },
   .skipped
    { blanks := "\n ".toList
      rest := "\x7b a, b \x7d: P = \x7b a: [1, 2], b: ü \x7d".toList
      isBlank_of_mem := List.all_eq_true.mp (by decide)
      skipped := .inr (.inl (by decide)) },
   .skipped
    { blanks := " ".toList
      rest := "this: Window".toList
      isBlank_of_mem := List.all_eq_true.mp (by decide)
      skipped := .inr (.inr (.inr ⟨": Window".toList, by decide, by decide⟩)) },
   .named
    { blanks := " ".toList
      lead := "...".toList ++ []
      name := "$rest_args".toList
      tail := ": Array<(a: string, b: T[]) => void>".toList
      isBlank_of_mem := List.all_eq_true.mp (by decide)
      isLead := .rest .nil
      isIdentifier := ⟨by decide, List.all_eq_true.mp (by decide)⟩
      ne_this := by decide
      not_modifier := by decide
      tail_apart := by decide },
   .skipped ⟨[], [], List.forall_mem_nil _, .inl rfl⟩]

theorem mixedParameters_are_read :
    (∀ s ∈ mixedParameters, closesFrom 0 none s.text = true) ∧
    (Declaration.inOrder (listDeclarations
        ("/* ü */ f(".toList ++ (joined mixedParameters ++ ") ".toList))
        ⟨⟨8, 10⟩, ⟨11, 11 + size (joined mixedParameters)⟩⟩)).map (fun d => (d.name, d.offset)) =
      [("userRepo".toList, 29), ("$rest_args".toList, 114)] := by
  have hclosed : ∀ s ∈ mixedParameters, closesFrom 0 none s.text = true :=
    List.all_eq_true.mp (by decide)
  have hbefore : size "/* ü */ f(".toList = 11 := by decide
  have hplaces : (places "/* ü */ f(".toList mixedParameters).map (fun p => (p.2, size p.1)) =
      [("userRepo".toList, 29), ("$rest_args".toList, 114)] := by decide
  rw [← hbefore, ← hplaces]
  exact ⟨hclosed, (parameters_are_read_exactly hclosed _ _ _).1⟩

end NamingLint
