import NamingLint.Declaration.Detect
import NamingLint.Proofs.Declaration.Border
import NamingLint.Proofs.Text.Ending

/-!
# NamingLint — pieces and line endings

Most pieces do not tell the two line endings apart. Leaving carriage returns out first and taking a
piece then is the same as taking the piece first. A run that goes up to the end of the line may stop
between the carriage return and the line feed; leaving the carriage return out heals this, too.

* `Piece.Steady` — a piece that takes the same with either line ending.
* `Piece.Sealed`, `Piece.Firm` — what the piece takes does not end in a carriage return; a firm piece
  takes something.

Main results:

* `many_steady`, `word_steady`, … — single pieces; the class of a run has to treat the two characters
  of a line ending alike, or to stop at the second only.
* `Steady.andThen`, `Steady.either` — pieces built from steady ones.
* `modifiers_steady`, `throughLastBracket_steady` — the two pieces that look ahead.
-/

namespace NamingLint

open Text

namespace Piece

variable {p q : Piece}

/-- With and without carriage returns, the piece takes the same. -/
def Steady (p : Piece) : Prop :=
  ∀ t, Paired t → p.take (plain t) = (p.take t).map fun taken => (plain taken.1, plain taken.2)

/-- What is left after a piece is paired if the text was. -/
theorem paired_rest {t a r : Text} (h : Paired t) (htake : p.take t = some (a, r)) : Paired r := by
  rw [← p.append_eq htake] at h
  exact h.append_right

/-! ## Single pieces -/

theorem nothing_steady : nothing.Steady :=
  fun _ _ => rfl

/-- A single character, if the class holds neither character of a line ending. -/
theorem one_steady {f : Char → Bool} (hfeed : f '\n' = false) (hreturn : f '\r' = false) :
    (one f).Steady := by
  intro t h
  cases h with
  | nil => rfl
  | keep hc h =>
    rw [plain_cons hc]
    simp only [one]
    split
    · rw [Option.map_some, plain_cons hc, plain_nil]
    · rfl
  | pair h =>
    -- the class holds neither character of a line ending
    simp [one, hfeed, hreturn]

theorem char_steady {c : Char} (hfeed : c ≠ '\n') (hreturn : c ≠ '\r') : (char c).Steady :=
  one_steady (decide_eq_false (Ne.symm hfeed)) (decide_eq_false (Ne.symm hreturn))

/-- A run may stop between the two characters of a line ending, but not before both. -/
theorem many_steady {f : Char → Bool} (hf : f '\n' = true → f '\r' = true) : (many f).Steady := by
  intro t h
  -- a run that goes on over line feeds goes on over the carriage returns before them
  simp only [many, takeWhile_plain hf h, dropWhile_plain hf h, Option.map_some]

/-- A run that takes something; its class holds both characters of a line ending or none. -/
theorem many1_steady {f : Char → Bool} (hf : f '\n' = f '\r') : (many1 f).Steady := by
  intro t h
  -- unlike a run that may be empty, this one must start on both sides or on neither
  have himp : f '\n' = true → f '\r' = true := fun hn => hf ▸ hn
  simp only [many1, head?_plain_any hf h, takeWhile_plain himp h, dropWhile_plain himp h]
  split <;> rfl

/-- A run up to a line feed stops behind the carriage return, which is then left out. -/
theorem upTo_steady {stops : List Char} (h : '\r' ∉ stops) : (upTo stops).Steady :=
  many_steady fun _ => by simpa using h

/-- A fixed word without characters of a line ending. -/
theorem word_steady {w : String} (hfeed : '\n' ∉ w.toList) (hreturn : '\r' ∉ w.toList) :
    (word w).Steady := by
  intro t h
  simp only [word, isPrefixOf_plain hfeed hreturn h]
  split
  · rename_i hprefix
    -- a word without carriage returns is a prefix of both texts or of neither
    obtain ⟨r, rfl⟩ := List.isPrefixOf_iff_prefix.mp hprefix
    rw [plain_append, plain_of_not_mem hreturn, List.take_left, List.drop_left, List.take_left,
      List.drop_left, Option.map_some, plain_of_not_mem hreturn]
  · rfl

/-- Words end at either character of a line ending. -/
theorem wordEnd_steady : wordEnd.Steady := by
  intro t h
  have hclass : isWord '\n' = isWord '\r' := by decide
  simp only [wordEnd, head?_plain_any hclass h]
  split <;> rfl

/-! ## Pieces built from others -/

/-- The second piece is tried in both texts or in neither. -/
theorem Steady.either (hp : p.Steady) (hq : q.Steady) : (p.either q).Steady := by
  intro t h
  simp only [Piece.either, hp t h]
  cases p.take t with
  | none => exact hq t h
  | some taken => rfl

theorem Steady.optional (hp : p.Steady) : (optional p).Steady :=
  hp.either nothing_steady

/-- The second piece starts at the same place of both texts. -/
theorem Steady.andThen (hp : p.Steady) (hq : q.Steady) : (p.andThen q).Steady := by
  intro t h
  simp only [Piece.andThen, hp t h]
  cases htake : p.take t with
  | none => rfl
  | some taken =>
    -- the rest is paired too, so the second piece can be asked about it
    have hrest : Paired taken.2 := paired_rest h htake
    simp only [Option.map_some, hq taken.2 hrest]
    cases q.take taken.2 with
    | none => rfl
    | some more => simp

/-- One of several words. -/
theorem anyOf_steady {ws : List String} (h : ∀ w ∈ ws, '\n' ∉ w.toList ∧ '\r' ∉ w.toList) :
    (anyOf ws).Steady := by
  induction ws with
  -- no word is left, and the empty class takes nothing
  | nil => exact one_steady rfl rfl
  | cons w ws ih =>
    obtain ⟨hw, hws⟩ := List.forall_mem_cons.mp h
    exact (word_steady hw.1 hw.2).either (ih hws)

/-! ## Parts of declarations -/

theorem blanks_steady : blanks.Steady :=
  many_steady fun _ => by decide

theorem blanks1_steady : blanks1.Steady :=
  many1_steady (by decide)

theorem identifier_steady : identifier.Steady :=
  many1_steady (by decide)

theorem indent_steady : indent.Steady :=
  many_steady fun h => absurd h (by decide)

theorem arrow_steady : arrow.Steady :=
  word_steady (by decide) (by decide)

theorem ascription_steady {stops : List Char} (h : '\r' ∉ stops) : (ascription stops).Steady :=
  (char_steady (by decide) (by decide)).andThen (upTo_steady h)

theorem typeParameters_steady : typeParameters.Steady :=
  (char_steady (by decide) (by decide)).andThen <|
  (upTo_steady (by decide)).andThen (char_steady (by decide) (by decide))

/-- The start of a parameter list, with type parameters before it. -/
theorem openList_steady : openList.Steady :=
  blanks_steady.andThen <| typeParameters_steady.optional.andThen <|
  blanks_steady.andThen (char_steady (by decide) (by decide))

theorem functionWord_steady : functionWord.Steady :=
  (word_steady (by decide) (by decide)).andThen <| wordEnd_steady.andThen <|
  blanks_steady.andThen <|
  (char_steady (c := '*') (by decide) (by decide)).optional.andThen blanks_steady

theorem bindingWord_steady : bindingWord.Steady :=
  (anyOf_steady (by decide)).andThen blanks1_steady

/-- A function as a value: a list and an arrow, a bare parameter and an arrow, or the word itself.
-/
theorem functionValue_steady : functionValue.Steady := by
  have hlist : listAndArrow.Steady :=
    (char_steady (by decide) (by decide)).andThen <| (upTo_steady (by decide)).andThen <|
    (char_steady (by decide) (by decide)).andThen <| blanks_steady.andThen <|
    (ascription_steady (by decide)).optional.andThen arrow_steady
  have hbare : bareAndArrow.Steady :=
    identifier_steady.andThen (blanks_steady.andThen arrow_steady)
  exact hlist.either (hbare.either ((word_steady (by decide) (by decide)).andThen wordEnd_steady))

theorem asyncValue_steady : asyncValue.Steady :=
  ((word_steady (by decide) (by decide)).andThen
    (blanks1_steady.andThen functionValue_steady)).either functionValue_steady

/-! ## Modifiers -/

/-- Characters in which a run of modifiers lies. -/
def inRun (c : Char) : Bool :=
  isIdent c || isBlank c

/-- A modifier with the blanks after it is taken from the front of the stretch the run lies in. -/
theorem length_takeWhile_of_modifier {t a r : Text}
    (h : (seq [identifier, blanks1]).take t = some (a, r)) :
    (r.takeWhile inRun).length < (t.takeWhile inRun).length := by
  obtain ⟨a₁, r₁, a₂, h₁, h₂, rfl⟩ := take_andThen h
  obtain ⟨hne, ha₁, -⟩ := take_many1 h₁
  obtain ⟨-, ha₂, -⟩ := take_many1 h₂
  -- the modifier and its blanks are the start of the run
  have hrun : ∀ c ∈ a₁ ++ a₂, inRun c = true := by
    intro c hc
    rw [inRun, Bool.or_eq_true]
    rcases List.mem_append.mp hc with hc | hc
    · rw [ha₁] at hc
      exact .inl (List.mem_takeWhile_imp hc)
    · rw [ha₂] at hc
      exact .inr (List.mem_takeWhile_imp hc)
  have hpos : 0 < a₁.length := List.length_pos_of_ne_nil hne
  rw [← (seq [identifier, blanks1]).append_eq h, List.takeWhile_append_of_pos hrun,
    List.length_append, List.length_append]
  omega

/-- A run of modifiers does not depend on the fuel, if that suffices for the stretch it lies in. -/
theorem modifierRun_fuel (words : List String) {n m : Nat} {t : Text}
    (hn : (t.takeWhile inRun).length ≤ n) (hm : (t.takeWhile inRun).length ≤ m) :
    modifierRun words n t = modifierRun words m t := by
  induction n generalizing m t with
  | zero =>
    cases m with
    | zero => rfl
    | succ m =>
      rw [modifierRun, modifierRun]
      split
      · rfl
      · -- where there is a modifier, fuel is left
        rename_i h
        have := length_takeWhile_of_modifier h
        omega
  | succ n ih =>
    cases m with
    | zero =>
      rw [modifierRun, modifierRun]
      split
      · rfl
      · rename_i h
        have := length_takeWhile_of_modifier h
        omega
    | succ m =>
      rw [modifierRun, modifierRun]
      split
      · rfl
      · rename_i h
        have hlt := length_takeWhile_of_modifier h
        rw [ih (m := m) (by omega) (by omega)]

/-- The identifier in front of a text is the same with either line ending. -/
theorem takeWhile_isIdent_plain {t : Text} (h : Paired t) :
    (plain t).takeWhile isIdent = t.takeWhile isIdent := by
  rw [takeWhile_plain (by decide) h, plain_of_not_mem]
  intro hmem
  exact absurd (List.mem_takeWhile_imp hmem) (by decide)

/-- A run of modifiers, with the same fuel on both sides. -/
theorem modifierRun_plain (words : List String) (fuel : Nat) {t : Text} (h : Paired t) :
    modifierRun words fuel (plain t) =
      ((modifierRun words fuel t).1.map plain, plain (modifierRun words fuel t).2) := by
  have hsteady : (seq [identifier, blanks1]).Steady := identifier_steady.andThen blanks1_steady
  induction fuel generalizing t with
  | zero => rfl
  | succ fuel ih =>
    -- whether the word in front is a modifier is told by the identifier, which has no line ending
    rw [modifierRun, modifierRun, hsteady t h, takeWhile_isIdent_plain h]
    cases htake : (seq [identifier, blanks1]).take t with
    | none => rfl
    | some taken =>
      simp only [Option.map_some]
      split
      · rw [ih (paired_rest h htake)]
        rfl
      · rfl

/-- All modifiers in front of a text, each with the fuel of its own text. -/
theorem modifiersOf_plain (words : List String) {t : Text} (h : Paired t) :
    modifiersOf words (plain t) =
      ((modifiersOf words t).1.map plain, plain (modifiersOf words t).2) := by
  have hstretch : (plain t).takeWhile inRun = plain (t.takeWhile inRun) :=
    takeWhile_plain (by decide) h
  -- carriage returns make the stretch longer, so there is more fuel than the plain text has
  have hle : ((plain t).takeWhile inRun).length ≤ (t.takeWhile inRun).length := by
    rw [hstretch, plain]
    exact List.length_filter_le _ _
  show modifierRun words ((plain t).takeWhile inRun).length (plain t) = _
  rw [modifierRun_fuel words (Nat.le_refl _) hle, modifierRun_plain words _ h]
  rfl

theorem plain_flatten (ts : List Text) : plain ts.flatten = (ts.map plain).flatten := by
  induction ts with
  | nil => rfl
  | cons t ts ih => rw [List.flatten_cons, plain_append, ih, List.map_cons, List.flatten_cons]

/-- How many modifiers are left to the piece depends on whether a name follows them, and a name does
in both texts or in neither. -/
theorem modifiers_steady (words : List String) (least : Nat) : (modifiers words least).Steady := by
  intro t h
  have hclass : isIdent '\n' = isIdent '\r' := by decide
  -- the run is cut off the front, so what follows is still paired
  have hrest : Paired (modifiersOf words t).2 := by
    have happend := flatten_modifierRun words (t.takeWhile inRun).length t
    rw [← happend] at h
    exact h.append_right
  have hcount : modifiersBeforeName (modifiersOf words (plain t)) =
      modifiersBeforeName (modifiersOf words t) := by
    rw [modifiersOf_plain words h]
    simp only [modifiersBeforeName, head?_plain_any hclass hrest, List.length_map]
  simp only [modifiers, hcount, head?_plain_any hclass h]
  split
  · rw [modifiersOf_plain words h]
    simp only [Option.map_some, plain_append, plain_flatten, List.map_take, List.map_drop]
  · rfl

/-! ## Type parameters of aliases -/

/-- Cutting after a closing bracket that is the last one. -/
theorem lengthToLastBracket_append {x y : Text} (hy : '>' ∉ y) :
    lengthToLastBracket (x ++ '>' :: y) = (x ++ ['>']).length := by
  -- from behind, the run without brackets is `y`
  have hrun : (x ++ '>' :: y).reverse.takeWhile (· ≠ '>') = y.reverse := by
    rw [List.reverse_append, List.reverse_cons, List.append_assoc,
      List.takeWhile_append_of_pos]
    · simp
    · intro c hc
      rw [decide_eq_true_eq]
      rintro rfl
      exact hy (List.mem_reverse.mp hc)
  rw [lengthToLastBracket, hrun]
  simp
  omega

/-- A text with a closing bracket has a last one. -/
theorem exists_last_bracket {t : Text} (h : '>' ∈ t) : ∃ x y, t = x ++ '>' :: y ∧ '>' ∉ y := by
  obtain ⟨y, x, hrev, hy⟩ := List.eq_append_cons_of_mem (List.mem_reverse.mpr h)
  refine ⟨x.reverse, y.reverse, ?_, by simpa using hy⟩
  rw [← List.reverse_reverse t, hrev]
  simp

/-- Type parameters are taken up to the last closing bracket, which stands in both texts. -/
theorem throughLastBracket_steady : throughLastBracket.Steady := by
  intro t h
  have hinside : (plain t).takeWhile (fun c => c ≠ '=' && c ≠ '\n') =
      plain (t.takeWhile fun c => c ≠ '=' && c ≠ '\n') := takeWhile_plain (by decide) h
  simp only [throughLastBracket, hinside]
  by_cases hmem : '>' ∈ t.takeWhile fun c => c ≠ '=' && c ≠ '\n'
  · -- both texts are cut behind their last bracket
    obtain ⟨x, y, hxy, hy⟩ := exists_last_bracket hmem
    obtain ⟨rest, hrest⟩ := List.takeWhile_prefix (l := t) (fun c => c ≠ '=' && c ≠ '\n')
    rw [hxy] at hrest
    have hcut : t = (x ++ ['>']) ++ (y ++ rest) := by rw [← hrest]; simp
    have hplain : plain (x ++ '>' :: y) = plain x ++ '>' :: plain y := by
      rw [plain_append, plain_cons (by decide)]
    have hplaincut : plain t = (plain x ++ ['>']) ++ plain (y ++ rest) := by
      rw [hcut, plain_append, plain_append, plain_cons (by decide), plain_nil]
    rw [if_pos hmem, hxy, hplain, if_pos (by simp), lengthToLastBracket_append hy,
      lengthToLastBracket_append (by simpa using hy), hplaincut, List.take_left, List.drop_left, hcut,
      List.take_left, List.drop_left, Option.map_some, plain_append x, plain_cons (by decide),
      plain_nil]
  · -- without a bracket there are no type parameters on either side
    have hnot : '>' ∉ plain (t.takeWhile fun c => c ≠ '=' && c ≠ '\n') := by simpa using hmem
    rw [if_neg hmem, if_neg hnot]
    rfl

/-! ## Ends of pieces -/

/-- What the piece takes does not end in a carriage return. -/
def Sealed (p : Piece) : Prop :=
  ∀ ⦃t a r : Text⦄, Paired t → p.take t = some (a, r) → a.getLast? ≠ some '\r'

/-- The piece takes something, and that does not end in a carriage return. -/
def Firm (p : Piece) : Prop :=
  ∀ ⦃t a r : Text⦄, Paired t → p.take t = some (a, r) → a ≠ [] ∧ a.getLast? ≠ some '\r'

theorem Firm.sealed (h : p.Firm) : p.Sealed :=
  fun _ _ _ ht htake => (h ht htake).2

/-- A firm piece is firm after whatever piece. -/
theorem Firm.after (hq : q.Firm) (p : Piece) : (p.andThen q).Firm := by
  intro t a r ht h
  obtain ⟨a₁, r₁, a₂, h₁, h₂, rfl⟩ := take_andThen h
  obtain ⟨hne, hlast⟩ := hq (paired_rest ht h₁) h₂
  exact ⟨by simp [hne], by rwa [List.getLast?_append_of_ne_nil a₁ hne]⟩

/-- A firm piece stays firm in front of a piece that adds no carriage return at its end. -/
theorem Firm.andThen (hp : p.Firm) (hq : q.Sealed) : (p.andThen q).Firm := by
  intro t a r ht h
  obtain ⟨a₁, r₁, a₂, h₁, h₂, rfl⟩ := take_andThen h
  obtain ⟨hne, hlast⟩ := hp ht h₁
  refine ⟨by simp [hne], ?_⟩
  -- a sealed piece may take nothing, and then the end is that of the piece before
  by_cases hnil : a₂ = []
  · rwa [hnil, List.append_nil]
  · rw [List.getLast?_append_of_ne_nil a₁ hnil]
    exact hq (paired_rest ht h₁) h₂

/-- Both pieces are firm, so the one that is taken is. -/
theorem Firm.either (hp : p.Firm) (hq : q.Firm) : (p.either q).Firm := by
  intro t a r ht h
  simp only [Piece.either] at h
  split at h
  · rename_i taken htaken
    cases h
    exact hp ht htaken
  · exact hq ht h

theorem nothing_sealed : nothing.Sealed := by
  intro t a r _ h
  simp only [nothing, Option.some.injEq, Prod.mk.injEq] at h
  simp [← h.1]

theorem wordEnd_sealed : wordEnd.Sealed := by
  intro t a r _ h
  simp [(take_wordEnd h).1]

theorem char_firm {c : Char} (hc : c ≠ '\r') : (char c).Firm := by
  intro t a r _ h
  rw [take_char h]
  exact ⟨List.cons_ne_nil _ _, by simpa using hc⟩

/-- A word that does not itself end in a carriage return. -/
theorem word_firm {w : String} (hne : w.toList ≠ []) (hlast : w.toList.getLast? ≠ some '\r') :
    (word w).Firm := by
  intro t a r _ h
  rw [take_word h]
  exact ⟨hne, hlast⟩

theorem arrow_firm : arrow.Firm :=
  word_firm (by decide) (by decide)

theorem openList_firm : openList.Firm :=
  (((char_firm (c := '(') (by decide)).after blanks).after (optional typeParameters)).after blanks

/-- No carriage return is part of an identifier. -/
theorem identifier_firm : identifier.Firm := by
  intro t a r _ h
  obtain ⟨hident, -⟩ := take_identifier h
  refine ⟨hident.ne_nil, ?_⟩
  -- the last character is one of the identifier
  intro hlast
  exact hident.return_not_mem (List.mem_of_getLast? hlast)

/-- Each of the three forms ends in an arrow or a word. -/
theorem functionValue_firm : functionValue.Firm := by
  have hlist : listAndArrow.Firm := ((((arrow_firm.after _).after _).after _).after _).after _
  have hbare : bareAndArrow.Firm := (arrow_firm.after _).after _
  have hword : (seq [word "function", wordEnd]).Firm :=
    (word_firm (by decide) (by decide)).andThen wordEnd_sealed
  exact hlist.either (hbare.either hword)

theorem asyncValue_firm : asyncValue.Firm :=
  ((functionValue_firm.after _).after _).either functionValue_firm

end Piece

end NamingLint
