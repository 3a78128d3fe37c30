import NamingLint.Proofs.Declaration.EndingPiece
import NamingLint.Rule.Construct

/-!
# NamingLint — shapes and line endings

A search walks over a text with carriage returns in step with the search over the plain text. Where
they meet a line ending, one has two places to look at and the other has one. Shapes made of steady
pieces find nothing at the second place. The shape of assignments may end a match at the first one;
in the plain text that match ends with the line feed.

* `Text.mended` — a text with plain line endings, where a carriage return at the very end is taken for
  the line feed it stands before.
* `Shape.Steady` — in step with the search over the plain text.
* `Shape.Settled` — the shapes that find nothing inside of a line ending.
* `Shape.Firm` — of these, the shapes whose matches do not end there either.

Main results:

* `Shape.firm_ofPieces` — shapes made of steady pieces are firm.
* `settled_assignmentShape` — the shape of assignments is only settled.
* `steady_anyShape` — the shape of the type `any` is in step all the same.
-/

namespace NamingLint

open Text

/-! ## Mended texts -/

namespace Text

/-- The text with plain line endings. A carriage return at its end is taken for the line feed that it
stands before. -/
def mended (t : Text) : Text :=
  if t.getLast? = some '\r' then plain t ++ ['\n'] else plain t

theorem mended_of_ne {t : Text} (h : t.getLast? ≠ some '\r') : mended t = plain t := by
  rw [mended, if_neg h]

/-- Only the end of a text is mended. -/
theorem mended_append (t : Text) {u : Text} (hu : u ≠ []) : mended (t ++ u) = plain t ++ mended u := by
  rw [mended, mended, List.getLast?_append_of_ne_nil t hu]
  split <;> simp

end Text

namespace Match

/-- The match in the plain text. -/
def mended (m : Match) : Match :=
  ⟨plain m.lead, m.name, m.tail.mended⟩

/-- Mending a match part by part mends its text: at most the tail ends in a carriage return. -/
theorem text_mended {m : Match} (hname : '\r' ∉ m.name)
    (htail : m.text.getLast? = some '\r' → m.tail.getLast? = some '\r') :
    m.mended.text = m.text.mended := by
  have hplain : plain (m.lead ++ m.name) = plain m.lead ++ m.name := by
    rw [plain_append, plain_of_not_mem hname]
  -- an empty tail leaves a match that ends in the name or the lead
  by_cases hnil : m.tail = []
  · have hlast : m.text.getLast? ≠ some '\r' := by
      intro h
      have := htail h
      simp [hnil] at this
    rw [mended_of_ne hlast]
    simp [text, mended, hnil, hplain, Text.mended]
  · show plain m.lead ++ m.name ++ m.tail.mended = (m.lead ++ m.name ++ m.tail).mended
    rw [mended_append _ hnil, hplain]

end Match

/-! ## Last pieces -/

namespace Piece

/-- What the piece takes of the plain text is what it takes of the text, mended. -/
def Mends (p : Piece) : Prop :=
  ∀ t, Paired t → (p.take (plain t)).map Prod.fst = (p.take t).map fun taken => taken.1.mended

/-- A steady piece needs no mending if it never ends in a carriage return. -/
theorem Steady.mends {p : Piece} (hp : p.Steady) (hsealed : p.Sealed) : p.Mends := by
  intro t ht
  rw [hp t ht]
  cases htake : p.take t with
  | none => rfl
  | some taken =>
    rw [Option.map_some, Option.map_some, Option.map_some, mended_of_ne (hsealed ht htake)]

/-- The piece takes at least one character. -/
def TakesSome (p : Piece) : Prop :=
  ∀ ⦃t a r⦄, p.take t = some (a, r) → a ≠ []

/-- A single character is something. -/
theorem one_takesSome (f : Char → Bool) : (one f).TakesSome := by
  intro t a r h
  cases t with
  | nil => simp [one] at h
  | cons c t =>
    simp only [one] at h
    split at h
    · cases h
      exact List.cons_ne_nil _ _
    · simp at h

theorem TakesSome.after {q : Piece} (hq : q.TakesSome) (p : Piece) : (p.andThen q).TakesSome := by
  intro t a r h
  obtain ⟨a₁, r₁, a₂, -, h₂, rfl⟩ := take_andThen h
  simp [hq h₂]

/-- A piece that is mended at its end may follow a steady one. -/
theorem Mends.after {p q : Piece} (hq : q.Mends) (hne : q.TakesSome) (hp : p.Steady) :
    (p.andThen q).Mends := by
  intro t ht
  simp only [andThen, hp t ht]
  cases htake : p.take t with
  | none => rfl
  | some taken =>
    -- what the first piece leaves is the same on both sides, up to carriage returns
    have hmend := hq taken.2 (paired_rest ht htake)
    simp only [Option.map_some]
    cases hmore : q.take taken.2 with
    | none =>
      rw [hmore, Option.map_none, Option.map_eq_none_iff] at hmend
      rw [hmend]
      rfl
    | some more =>
      rw [hmore, Option.map_some] at hmend
      obtain ⟨more', hmore', heq⟩ := Option.map_eq_some_iff.mp hmend
      rw [hmore']
      simp only [Option.map_some, mended_append _ (hne hmore), heq]

/-- A single character of a class that both characters of a line ending belong to: of the line ending,
the first one is taken. -/
theorem one_mends {f : Char → Bool} (hfeed : f '\n' = true) (hreturn : f '\r' = true) :
    (one f).Mends := by
  intro t ht
  cases ht with
  | nil => rfl
  | keep hc ht =>
    rw [plain_cons hc]
    simp only [one]
    split
    · rw [Option.map_some, Option.map_some, mended_of_ne (by simpa using hc), plain_cons hc]
      rfl
    · rfl
  | pair ht =>
    -- one side takes the line feed, the other the carriage return before it
    simp [one, hfeed, hreturn, mended]

end Piece

/-! ## Shapes -/

namespace Shape

/-- What the matches of a shape look like: they are something, there is no carriage return in the
name, and one at the end belongs to the tail. -/
structure Clear (s : Shape) : Prop where
  ne_nil : ∀ {previous t m}, Paired t → s.find previous t = some m → m.text ≠ []
  name : ∀ {previous t m}, s.find previous t = some m → '\r' ∉ m.name
  tail : ∀ {previous t m}, Paired t → s.find previous t = some m →
    m.text.getLast? = some '\r' → m.tail.getLast? = some '\r'

/-- Matches correspond, and there are none inside of a line ending. -/
structure Settled (s : Shape) : Prop extends s.Clear where
  find_plain : ∀ previous {t}, Paired t →
    s.find previous (plain t) = (s.find previous t).map Match.mended
  gap : ∀ t, s.find (some '\r') ('\n' :: t) = none

/-- And no match ends inside of one. -/
structure Firm (s : Shape) : Prop extends s.Settled where
  last : ∀ {previous t m}, Paired t → s.find previous t = some m → m.text.getLast? ≠ some '\r'

/-- Where no line ending is, matches correspond. At a line ending, the match in the plain text
corresponds to one at the carriage return or, if there is none, to one at the line feed. -/
structure Steady (s : Shape) : Prop extends s.Clear where
  keep : ∀ previous {c t}, c ≠ '\r' → Paired t →
    s.find previous (c :: plain t) = (s.find previous (c :: t)).map Match.mended
  pair : ∀ previous {t}, Paired t →
    (s.find previous ('\n' :: plain t) =
        (s.find previous ('\r' :: '\n' :: t)).map Match.mended ∧
      s.find (some '\r') ('\n' :: t) = none) ∨
    (s.find previous ('\r' :: '\n' :: t) = none ∧
      s.find previous ('\n' :: plain t) = (s.find (some '\r') ('\n' :: t)).map Match.mended)
  /-- After a match that ends inside of a line ending, there is none right away. -/
  apart : ∀ {previous t m}, Paired t → s.find previous t = some m →
    m.text.getLast? = some '\r' → ∀ u, s.find (some '\r') ('\n' :: u) = none

/-- A settled shape finds nothing between the two characters of a line ending. -/
theorem Settled.steady {s : Shape} (h : s.Settled) : s.Steady where
  toClear := h.toClear
  keep previous c t hc ht := by
    rw [← plain_cons hc]
    exact h.find_plain previous (.keep hc ht)
  pair previous t ht := .inl ⟨h.find_plain previous (.pair ht), h.gap t⟩
  apart _ _ _ := h.gap

/-- A match of two alternatives is a match of one of them. -/
theorem Clear.orElse {s r : Shape} (hs : s.Clear) (hr : r.Clear) : (s.orElse r).Clear where
  ne_nil ht h := (find_orElse h).elim (hs.ne_nil ht) (hr.ne_nil ht)
  name h := (find_orElse h).elim hs.name hr.name
  tail ht h := (find_orElse h).elim (hs.tail ht) (hr.tail ht)

/-- The first alternative is passed over in both texts or in neither. -/
theorem find_orElse_plain {s r : Shape} {previous : Option Char} {t u : Text}
    (hs : s.find previous u = (s.find previous t).map Match.mended)
    (hr : r.find previous u = (r.find previous t).map Match.mended) :
    (s.orElse r).find previous u = ((s.orElse r).find previous t).map Match.mended := by
  -- by the first alternative; the second one counts only where it has no match
  simp only [Shape.orElse, hs]
  cases s.find previous t with
  | none => exact hr
  | some m => rfl

theorem Settled.orElse {s r : Shape} (hs : s.Settled) (hr : r.Settled) : (s.orElse r).Settled where
  toClear := hs.toClear.orElse hr.toClear
  find_plain previous _ ht :=
    find_orElse_plain (hs.find_plain previous ht) (hr.find_plain previous ht)
  gap t := by simp only [Shape.orElse, hs.gap t, hr.gap t]

theorem Firm.orElse {s r : Shape} (hs : s.Firm) (hr : r.Firm) : (s.orElse r).Firm where
  toSettled := hs.toSettled.orElse hr.toSettled
  last ht h := (find_orElse h).elim (hs.last ht) (hr.last ht)

/-! ## Shapes made of pieces -/

section Pieces

variable {starts : Option Char → Bool} {lead name tail : Piece}

/-- Corresponding leads go on to corresponding matches. -/
theorem find_ofPieces_plain (previous : Option Char) {t u : Text} (ht : Paired t)
    (hlead : lead.take u = (lead.take t).map fun taken => (plain taken.1, plain taken.2))
    (hname : name.Steady) (hplain : ∀ ⦃t a r⦄, name.take t = some (a, r) → '\r' ∉ a)
    (htail : tail.Mends) :
    (ofPieces starts lead name tail).find previous u =
      ((ofPieces starts lead name tail).find previous t).map Match.mended := by
  simp only [ofPieces, hlead]
  split
  · cases hl : lead.take t with
    | none => rfl
    | some l =>
      -- each piece goes on where the one before it stopped, still with whole line endings
      have hlrest : Paired l.2 := Piece.paired_rest ht hl
      simp only [Option.map_some, hname l.2 hlrest]
      cases hn : name.take l.2 with
      | none => rfl
      | some n =>
        have htail := htail n.2 (Piece.paired_rest hlrest hn)
        simp only [Option.map_some, plain_of_not_mem (hplain hn)]
        cases htake : tail.take n.2 with
        | none =>
          rw [htake, Option.map_none, Option.map_eq_none_iff] at htail
          rw [htail]
          rfl
        | some r =>
          rw [htake, Option.map_some] at htail
          obtain ⟨r', hr', heq⟩ := Option.map_eq_some_iff.mp htail
          rw [hr']
          simp only [Option.map_some, Match.mended, heq]
  · rfl

/-- The match of a shape is what its three pieces take, one after the other. -/
theorem not_return_of_find (hfirm : (lead.andThen (name.andThen tail)).Firm) {previous : Option Char}
    {t : Text} {m : Match} (ht : Paired t)
    (h : (ofPieces starts lead name tail).find previous t = some m) :
    m.text ≠ [] ∧ m.text.getLast? ≠ some '\r' := by
  obtain ⟨-, r₁, r₂, r₃, hl, hn, ht'⟩ := find_ofPieces h
  have htake : (lead.andThen (name.andThen tail)).take t =
      some (m.lead ++ (m.name ++ m.tail), r₃) := by
    simp only [Piece.andThen, hl, hn, ht']
  rw [Match.text, List.append_assoc]
  exact hfirm ht htake

/-- A shape of three pieces is clear if its name has no carriage return and the whole is firm. -/
theorem clear_ofPieces (hplain : ∀ ⦃t a r⦄, name.take t = some (a, r) → '\r' ∉ a)
    (hfirm : (lead.andThen (name.andThen tail)).Firm) : (ofPieces starts lead name tail).Clear where
  ne_nil ht h := (not_return_of_find hfirm ht h).1
  name h := by
    obtain ⟨-, r₁, r₂, r₃, -, hn, -⟩ := find_ofPieces h
    exact hplain hn
  tail ht h hlast := absurd hlast (not_return_of_find hfirm ht h).2

/-- A shape of three steady pieces is firm, if it cannot start at the line feed of a line ending. -/
theorem firm_ofPieces (hlead : lead.Steady) (hname : name.Steady) (htail : tail.Steady)
    (hplain : ∀ ⦃t a r⦄, name.take t = some (a, r) → '\r' ∉ a)
    (hfirm : (lead.andThen (name.andThen tail)).Firm) (hsealed : tail.Sealed)
    (hgap : starts (some '\r') = false ∨ ∀ t, lead.take ('\n' :: t) = none) :
    (ofPieces starts lead name tail).Firm where
  toClear := clear_ofPieces hplain hfirm
  last ht h := (not_return_of_find hfirm ht h).2
  find_plain previous t ht :=
    find_ofPieces_plain previous ht (hlead t ht) hname hplain (htail.mends hsealed)
  gap t := by
    -- behind a carriage return no line starts, and no other lead starts with a line feed
    simp only [ofPieces]
    rcases hgap with hgap | hgap
    · rw [hgap]
      rfl
    · rw [hgap]
      split <;> rfl

end Pieces

/-- There are no carriage returns in identifiers. -/
theorem return_not_mem_identifier ⦃t a r : Text⦄ (h : Piece.identifier.take t = some (a, r)) :
    '\r' ∉ a :=
  (Piece.take_identifier h).1.return_not_mem

/-- A lead, an identifier and a firm tail. -/
theorem firm_of_tail {starts : Option Char → Bool} {lead tail : Piece} (hlead : lead.Steady)
    (htail : tail.Steady) (hfirm : tail.Firm)
    (hgap : starts (some '\r') = false ∨ ∀ t, lead.take ('\n' :: t) = none) :
    (ofPieces starts lead .identifier tail).Firm :=
  firm_ofPieces hlead Piece.identifier_steady htail return_not_mem_identifier
    ((hfirm.after _).after _) hfirm.sealed hgap

end Shape

/-! ## The shapes of declarations -/

open Shape Piece

/-- A binding ends in a semicolon. -/
theorem firm_bindingShape : bindingShape.Firm :=
  firm_of_tail bindingWord_steady
    (blanks_steady.andThen <| (ascription_steady (by decide)).optional.andThen <|
      (char_steady (by decide) (by decide)).andThen <| (upTo_steady (by decide)).andThen <|
      char_steady (by decide) (by decide))
    (((((char_firm (c := ';') (by decide)).after _).after _).after _).after _)
    (.inr fun _ => rfl)

theorem firm_namedFunctionShape : namedFunctionShape.Firm :=
  firm_of_tail functionWord_steady openList_steady openList_firm (.inr fun _ => rfl)

/-- A function that is bound to a name ends in its arrow or in the word `function`. -/
theorem firm_boundFunctionShape : boundFunctionShape.Firm :=
  firm_of_tail bindingWord_steady
    (blanks_steady.andThen <| (ascription_steady (by decide)).optional.andThen <|
      (char_steady (by decide) (by decide)).andThen <| blanks_steady.andThen asyncValue_steady)
    ((((asyncValue_firm.after _).after _).after _).after _) (.inr fun _ => rfl)

theorem methodLead_steady : methodLead.Steady :=
  indent_steady.andThen (modifiers_steady _ _)

/-- A method ends in the brace of its body, and starts on a line of its own. -/
theorem firm_methodShape : methodShape.Firm :=
  firm_of_tail methodLead_steady
    (openList_steady.andThen <| (upTo_steady (by decide)).andThen <|
      (char_steady (by decide) (by decide)).andThen <| blanks_steady.andThen <|
      (ascription_steady (by decide)).optional.andThen (char_steady (by decide) (by decide)))
    ((((((char_firm (c := '\x7b') (by decide)).after _).after _).after _).after _).after _)
    (.inl rfl)

/-- A declaration that a word introduces cannot start with a line feed, since the word does not. -/
theorem firm_introducedShape {word : String} {tail : Piece}
    (hfeed : '\n' ∉ word.toList) (hreturn : '\r' ∉ word.toList) (hne : word.toList ≠ [])
    (htail : tail.Steady) (hfirm : (Piece.identifier.andThen tail).Firm) (hsealed : tail.Sealed) :
    (introducedShape word tail).Firm :=
  firm_ofPieces ((word_steady hfeed hreturn).andThen blanks1_steady) identifier_steady htail
    return_not_mem_identifier (hfirm.after _) hsealed
    (.inr fun t => by
      -- the first character of the word is not the line feed
      obtain ⟨c, w, hw⟩ := List.exists_cons_of_ne_nil hne
      have hc : c ≠ '\n' := by
        rintro rfl
        exact hfeed (by simp [hw])
      simp [seq, andThen, Piece.word, hw, hc])

/-- A type alias ends in its equals sign. -/
theorem firm_typeAliasShape : typeAliasShape.Firm := by
  have hequals : (seq [.blanks, .optional (.seq [.char '<', .throughLastBracket]), .blanks,
      .char '=']).Firm := (((char_firm (c := '=') (by decide)).after _).after _).after _
  exact firm_introducedShape (by decide) (by decide) (by decide)
    (blanks_steady.andThen <|
      ((char_steady (by decide) (by decide)).andThen throughLastBracket_steady).optional.andThen <|
      blanks_steady.andThen (char_steady (by decide) (by decide)))
    (hequals.after _) hequals.sealed

/-- A field ends in a semicolon, and starts on a line of its own. -/
theorem firm_fieldShape : fieldShape.Firm := by
  have hsteady : fieldTail.Steady :=
    blanks_steady.andThen <| (one_steady (by decide) (by decide)).optional.andThen <|
    blanks_steady.andThen <| (ascription_steady (by decide)).optional.andThen <|
    ((char_steady (by decide) (by decide)).andThen (upTo_steady (by decide))).optional.andThen <|
    char_steady (by decide) (by decide)
  -- all parts but the last may be missing
  have hfirm : fieldTail.Firm := by
    unfold fieldTail
    exact (((((char_firm (c := ';') (by decide)).after _).after _).after _).after _).after _
  exact firm_of_tail (indent_steady.andThen (modifiers_steady _ _)) hsteady hfirm (.inl rfl)

/-- A match of an assignment may end with the carriage return of a line ending. -/
theorem settled_assignmentShape : assignmentShape.Settled := by
  -- the tail takes at least the equals sign, so the match ends where the tail does
  have htail : ∀ {previous t m}, assignmentShape.find previous t = some m → m.tail ≠ [] := by
    intro previous t m h
    obtain ⟨-, r₁, r₂, r₃, -, -, htail⟩ := find_ofPieces h
    exact ((one_takesSome _).after _).after _ htail
  have hmends : (seq [.blanks, .char '=', .one fun c => c ≠ '=' && c ≠ '>']).Mends :=
    ((one_mends (by decide) (by decide)).after (one_takesSome _)
      (char_steady (by decide) (by decide))).after ((one_takesSome _).after _) blanks_steady
  refine { ne_nil := ?_, name := ?_, tail := ?_, find_plain := ?_, gap := fun _ => rfl }
  · intro previous t m _ h
    simp [Match.text, htail h]
  · intro previous t m h
    obtain ⟨-, r₁, r₂, r₃, -, hn, -⟩ := find_ofPieces h
    exact return_not_mem_identifier hn
  · intro previous t m _ h hlast
    rwa [Match.text, List.getLast?_append_of_ne_nil _ (htail h)] at hlast
  · intro previous t ht
    exact find_ofPieces_plain previous ht (word_steady (by decide) (by decide) t ht) identifier_steady
      return_not_mem_identifier hmends

/-! ## The shapes of parameter lists -/

/-- The head of a function, where the name may be missing. -/
theorem firm_functionHeadShape : functionHeadShape.Firm :=
  firm_ofPieces functionWord_steady (many_steady (by decide)) openList_steady
    (fun t a r h hmem => by
      simp only [many, Option.some.injEq, Prod.mk.injEq] at h
      rw [← h.1] at hmem
      exact absurd (List.mem_takeWhile_imp hmem) (by decide))
    ((openList_firm.after _).after _) openList_firm.sealed (.inr fun _ => rfl)

theorem firm_methodHeadShape : methodHeadShape.Firm :=
  firm_of_tail methodLead_steady openList_steady openList_firm (.inl rfl)

/-- What follows a parameter list of an arrow function; there is no name in it. -/
theorem firm_arrowTailShape : arrowTailShape.Firm :=
  firm_ofPieces
    ((char_steady (by decide) (by decide)).andThen <| blanks_steady.andThen <|
      (ascription_steady (by decide)).optional.andThen arrow_steady)
    nothing_steady nothing_steady
    (fun t a r h hmem => by
      simp only [nothing, Option.some.injEq, Prod.mk.injEq] at h
      simp [← h.1] at hmem)
    ((((arrow_firm.after _).after _).after _).andThen
      fun t a r ht h => by
        obtain ⟨a₁, r₁, a₂, h₁, h₂, rfl⟩ := take_andThen h
        simp only [nothing, Option.some.injEq, Prod.mk.injEq] at h₁ h₂
        simp [← h₁.1, ← h₂.1])
    nothing_sealed (.inr fun _ => rfl)

/-- A parameter without parentheses, before an arrow. -/
theorem firm_bareParameterShape {starts : Option Char → Bool} {lead : Piece}
    (hlead : lead.Steady)
    (hgap : starts (some '\r') = false ∨ ∀ t, lead.take ('\n' :: t) = none) :
    (bareParameterShape starts lead).Firm :=
  firm_of_tail (hlead.andThen blanks_steady) (blanks_steady.andThen arrow_steady)
    (arrow_firm.after _)
    (hgap.imp_right fun h t => by simp only [seq, andThen, h])

/-- The four places in which a bare parameter may stand. -/
theorem firm_bareArrowShape : bareArrowShape.Firm :=
  (firm_bareParameterShape nothing_steady (.inl rfl)).orElse <|
  (firm_bareParameterShape (one_steady (by decide) (by decide)) (.inr fun _ => rfl)).orElse <|
  (firm_bareParameterShape (word_steady (by decide) (by decide)) (.inr fun _ => rfl)).orElse <|
  firm_bareParameterShape (word_steady (by decide) (by decide)) (.inr fun _ => rfl)

/-! ## The shape of a construct -/

/-- The word `any` may follow a line ending, and then stands behind its line feed. -/
theorem steady_anyShape : ConstructRule.anyShape.Steady := by
  have hword : ConstructRule.anyWord.Steady :=
    (word_steady (by decide) (by decide)).andThen wordEnd_steady
  have hfirm : (ConstructRule.anyWord.andThen nothing).Firm :=
    ((word_firm (by decide) (by decide)).andThen wordEnd_sealed).andThen nothing_sealed
  have hplain : ∀ ⦃t a r⦄, ConstructRule.anyWord.take t = some (a, r) → '\r' ∉ a := by
    intro t a r h
    obtain ⟨a₁, r₁, a₂, h₁, h₂, rfl⟩ := take_andThen h
    rw [take_word h₁, (take_wordEnd h₂).1]
    decide
  have hnothing : nothing.Mends := nothing_steady.mends nothing_sealed
  have hkeep : ∀ previous {c t}, c ≠ '\r' → Paired t →
      ConstructRule.anyShape.find previous (c :: plain t) =
        (ConstructRule.anyShape.find previous (c :: t)).map Match.mended := by
    intro previous c t hc ht
    have hpaired : Paired (c :: t) := .keep hc ht
    have hlead : (one ConstructRule.mayPrecedeAny).take (c :: plain t) =
        ((one ConstructRule.mayPrecedeAny).take (c :: t)).map
          fun taken => (plain taken.1, plain taken.2) := by
      simp only [one]
      split
      · rw [Option.map_some, plain_cons hc, plain_nil]
      · rfl
    exact find_orElse_plain
      (by rw [← plain_cons hc]
          exact find_ofPieces_plain previous hpaired rfl hword hplain hnothing)
      (find_ofPieces_plain previous hpaired hlead hword hplain hnothing)
  -- whichever form it is, a match ends with the word
  have hclear : ConstructRule.anyShape.Clear :=
    (clear_ofPieces hplain (hfirm.after _)).orElse (clear_ofPieces hplain (hfirm.after _))
  refine { hclear with keep := hkeep, pair := ?_, apart := ?_ }
  · -- at a line feed only the second form is left, and it does not ask what stands before
    intro previous t ht
    have hbefore : ∀ previous' u, ConstructRule.anyShape.find previous ('\n' :: u) =
        ConstructRule.anyShape.find previous' ('\n' :: u) := by
      intro previous' u
      cases previous <;> cases previous' <;> rfl
    have hreturn : ConstructRule.anyShape.find previous ('\r' :: '\n' :: t) = none := by
      cases previous <;> rfl
    refine .inr ⟨hreturn, ?_⟩
    rw [hbefore (some '\r')]
    exact hkeep _ (by decide) ht
  · intro previous t m ht h hlast
    rcases find_orElse h with h | h
    · exact absurd hlast (not_return_of_find (hfirm.after _) ht h).2
    · exact absurd hlast (not_return_of_find (hfirm.after _) ht h).2

end NamingLint
