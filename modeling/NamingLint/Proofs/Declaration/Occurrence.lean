import Mathlib.Data.List.TakeWhile
import NamingLint.Proofs.Text.Bytes
import NamingLint.Declaration.Shape

/-!
# NamingLint — where occurrences stand

An occurrence of a shape is a part of the text at the offset given for it. A declaration made of it
has its name where it says.

* `Shape.NamesIdentifiers` — the names that a shape finds are identifiers.
* `Declaration.StandsIn` — a declaration is what stands in a text at its offset.

Main results:

* `exists_of_mem_occurrences` — an occurrence is a match of the shape at its place.
* `standsIn_of_mem_declarationsOf` — the declarations of a shape stand in the text.
-/

namespace NamingLint

open Text

/-! ## Pieces and shapes -/

/-- What is taken of a class is all there is of it in front, and something. -/
theorem Piece.take_many1 {p : Char → Bool} {t a r : Text} (h : (many1 p).take t = some (a, r)) :
    a ≠ [] ∧ a = t.takeWhile p ∧ r = t.dropWhile p := by
  simp only [many1] at h
  split at h
  · rename_i hhead
    simp only [Option.some.injEq, Prod.mk.injEq] at h
    obtain ⟨rfl, rfl⟩ := h
    refine ⟨?_, rfl, rfl⟩
    -- the first character is in the class, so the run is not empty
    cases t with
    | nil => simp at hhead
    | cons c t =>
      have hc : p c = true := by simpa using hhead
      simp [hc]
  · simp at h

theorem Piece.take_many {p : Char → Bool} {t a r : Text} (h : (many p).take t = some (a, r)) :
    a = t.takeWhile p ∧ r = t.dropWhile p := by
  simp only [many, Option.some.injEq, Prod.mk.injEq] at h
  exact ⟨h.1.symm, h.2.symm⟩

/-- One character of the class is taken. -/
theorem Piece.take_one {p : Char → Bool} {t a r : Text} (h : (one p).take t = some (a, r)) :
    ∃ c, p c = true ∧ a = [c] := by
  cases t with
  | nil => simp [one] at h
  | cons c t =>
    simp only [one] at h
    split at h
    · rename_i hc
      simp only [Option.some.injEq, Prod.mk.injEq] at h
      exact ⟨c, hc, h.1.symm⟩
    · simp at h

/-- What the identifier piece takes is an identifier, and no identifier goes on after it. -/
theorem Piece.take_identifier {t a r : Text} (h : Piece.identifier.take t = some (a, r)) :
    IsIdentifier a ∧ r = t.dropWhile isIdent := by
  obtain ⟨hne, rfl, rfl⟩ := take_many1 h
  exact ⟨⟨hne, fun c hc => List.mem_takeWhile_imp hc⟩, rfl⟩

/-- The two parts of what a sequence of two pieces takes. -/
theorem Piece.take_andThen {p q : Piece} {t a r : Text} (h : (p.andThen q).take t = some (a, r)) :
    ∃ a₁ r₁ a₂, p.take t = some (a₁, r₁) ∧ q.take r₁ = some (a₂, r) ∧ a = a₁ ++ a₂ := by
  simp only [andThen] at h
  split at h
  · simp at h
  · -- the second piece goes on where the first stopped
    rename_i a₁ r₁ hp
    split at h
    · simp at h
    · rename_i a₂ r₂ hq
      cases h
      exact ⟨a₁, r₁, a₂, hp, hq, rfl⟩

theorem Piece.take_andThen_of {p q : Piece} {t a r b rest : Text} (hp : p.take t = some (a, r))
    (hq : q.take r = some (b, rest)) : (p.andThen q).take t = some (a ++ b, rest) := by
  simp only [andThen, hp, hq]

/-- What may be left out is taken or left out. -/
theorem Piece.take_optional {p : Piece} {t a r : Text} (h : (optional p).take t = some (a, r)) :
    p.take t = some (a, r) ∨ a = [] := by
  simp only [optional, either] at h
  split at h
  · -- the piece matched
    rename_i hp
    exact .inl (hp.trans h)
  · simp only [nothing, Option.some.injEq, Prod.mk.injEq] at h
    exact .inr h.1.symm

theorem Piece.take_char {c : Char} {t a r : Text} (h : (Piece.char c).take t = some (a, r)) :
    a = [c] := by
  obtain ⟨d, hd, rfl⟩ := take_one h
  simpa using hd

namespace Shape

/-- The parts of a match of a shape that is put together from pieces. -/
theorem find_ofPieces {starts : Option Char → Bool} {lead name tail : Piece}
    {previous : Option Char} {t : Text} {m : Match}
    (h : (ofPieces starts lead name tail).find previous t = some m) :
    starts previous = true ∧ ∃ r₁ r₂ r₃, lead.take t = some (m.lead, r₁) ∧
      name.take r₁ = some (m.name, r₂) ∧ tail.take r₂ = some (m.tail, r₃) := by
  simp only [ofPieces] at h
  split at h
  · -- all three pieces must match, each where the one before it stopped
    rename_i hstart
    split at h
    · simp at h
    · rename_i hl
      split at h
      · simp at h
      · rename_i hn
        split at h
        · simp at h
        · rename_i ht
          cases h
          exact ⟨hstart, _, _, _, hl, hn, ht⟩
  · simp at h

/-- A shape is found where its three pieces match in a row. -/
theorem find_ofPieces_of {starts : Option Char → Bool} {lead name tail : Piece}
    {previous : Option Char} {t l n r t₁ t₂ t₃ : Text} (hstart : starts previous = true)
    (hlead : lead.take t = some (l, t₁)) (hname : name.take t₁ = some (n, t₂))
    (htail : tail.take t₂ = some (r, t₃)) :
    (ofPieces starts lead name tail).find previous t = some ⟨l, n, r⟩ := by
  simp only [ofPieces, hstart, hlead, hname, htail, if_true]

/-- A match of either shape is a match of one of them. -/
theorem find_orElse {s r : Shape} {previous : Option Char} {t : Text} {m : Match}
    (h : (s.orElse r).find previous t = some m) :
    s.find previous t = some m ∨ r.find previous t = some m := by
  simp only [orElse] at h
  split at h
  · rename_i hs
    exact .inl (hs.trans h)
  · exact .inr h

/-- The names that the shape finds are identifiers. -/
def NamesIdentifiers (s : Shape) : Prop :=
  ∀ (previous : Option Char) (t : Text) (m : Match), s.find previous t = some m →
    IsIdentifier m.name

/-- A shape with an identifier in the middle names identifiers. -/
theorem namesIdentifiers_ofPieces (starts : Option Char → Bool) (lead tail : Piece) :
    (ofPieces starts lead .identifier tail).NamesIdentifiers := by
  intro previous t m h
  obtain ⟨-, r₁, r₂, -, -, hname, -⟩ := find_ofPieces h
  exact (Piece.take_identifier hname).1

/-- A choice between two shapes that name identifiers names identifiers. -/
theorem NamesIdentifiers.orElse {s r : Shape} (hs : s.NamesIdentifiers)
    (hr : r.NamesIdentifiers) : (s.orElse r).NamesIdentifiers := by
  intro previous t m h
  rcases find_orElse h with h | h
  · exact hs _ _ _ h
  · exact hr _ _ _ h

end Shape

/-! ## Occurrences -/

/-- An occurrence that a search finds in the text after `pre` is a match at its place. -/
theorem exists_of_mem_occurrencesFrom {shape : Shape} {o : Occurrence} {t : Text} (pre : Text)
    (skip : Nat) (h : o ∈ occurrencesFrom shape skip pre.getLast? (size pre) t) :
    ∃ mid post, t = mid ++ (o.found.text ++ post) ∧ o.start = size (pre ++ mid) ∧
      shape.find (pre ++ mid).getLast? (o.found.text ++ post) = some o.found := by
  induction t generalizing pre skip with
  | nil => simp [occurrencesFrom] at h
  | cons c t ih =>
    -- one character on, the search has the prefix `pre ++ [c]` behind it
    have hnext : ∀ n, o ∈ occurrencesFrom shape n (some c) (size pre + c.utf8Size) t →
        ∃ mid post, c :: t = mid ++ (o.found.text ++ post) ∧ o.start = size (pre ++ mid) ∧
          shape.find (pre ++ mid).getLast? (o.found.text ++ post) = some o.found := by
      intro n hn
      have hmem : o ∈ occurrencesFrom shape n (pre ++ [c]).getLast? (size (pre ++ [c])) t := by
        simpa using hn
      obtain ⟨mid, post, ht, hstart, hfind⟩ := ih (pre ++ [c]) n hmem
      refine ⟨c :: mid, post, by rw [ht, List.cons_append], ?_, ?_⟩
      · rw [hstart, List.append_assoc, List.singleton_append]
      · rwa [List.append_assoc, List.singleton_append] at hfind
    cases skip with
    | succ skip =>
      rw [occurrencesFrom] at h
      exact hnext skip h
    | zero =>
      rw [occurrencesFrom] at h
      split at h
      · exact hnext 0 h
      · rename_i m hm
        rcases List.mem_cons.mp h with rfl | h
        · obtain ⟨post, hpost⟩ := shape.isPrefix hm
          exact ⟨[], post, hpost.symm, by simp, by simpa [hpost] using hm⟩
        · exact hnext _ h

/-- An occurrence is a match of the shape at its place. -/
theorem exists_of_mem_occurrences {shape : Shape} {o : Occurrence} {t : Text}
    (h : o ∈ occurrences shape t) :
    ∃ pre post, t = pre ++ (o.found.text ++ post) ∧ o.start = size pre ∧
      shape.find pre.getLast? (o.found.text ++ post) = some o.found := by
  obtain ⟨mid, post, hmid⟩ := exists_of_mem_occurrencesFrom [] 0 h
  exact ⟨mid, post, hmid⟩

/-! ## Declarations -/

namespace Declaration

/-- The text of the declaration is a part of `t`, with the name, an identifier, at the offset. -/
structure StandsIn (d : Declaration) (t : Text) : Prop where
  ident : IsIdentifier d.name
  place : ∃ before lead tail after, t = before ++ (lead ++ d.name ++ tail) ++ after ∧
    d.matched = lead ++ d.name ++ tail ∧ d.offset = size (before ++ lead)

/-- The name alone, at its offset. -/
theorem StandsIn.name_at {d : Declaration} {t : Text} (h : d.StandsIn t) :
    ∃ pre post, t = pre ++ d.name ++ post ∧ d.offset = size pre := by
  obtain ⟨before, lead, tail, after, ht, -, hoffset⟩ := h.place
  exact ⟨before ++ lead, tail ++ after, by simp [ht], hoffset⟩

/-- Placing a declaration adds no other. -/
theorem mem_of_mem_place {d e : Declaration} {es : List Declaration} (h : e ∈ place d es) :
    e = d ∨ e ∈ es := by
  induction es with
  | nil => simpa [place] using h
  | cons f es ih =>
    rw [place] at h
    split at h
    · simpa using h
    · split at h
      · -- `d` in the place of `f`
        rcases List.mem_cons.mp h with h | h
        · exact .inl h
        · exact .inr (List.mem_cons_of_mem f h)
      · rcases List.mem_cons.mp h with h | h
        · exact .inr (h ▸ List.mem_cons_self)
        · exact (ih h).imp_right (List.mem_cons_of_mem f)

/-- Ordering declarations makes none up. -/
theorem mem_of_mem_inOrder {d : Declaration} {ds : List Declaration} (h : d ∈ inOrder ds) :
    d ∈ ds := by
  induction ds with
  | nil => simp [inOrder] at h
  | cons e ds ih =>
    rcases mem_of_mem_place h with rfl | h
    · exact List.mem_cons_self
    · exact List.mem_cons_of_mem e (ih h)

end Declaration

/-- The declarations of a shape stand in the text. -/
theorem standsIn_of_mem_declarationsOf {shape : Shape} (hs : shape.NamesIdentifiers) {t : Text}
    {d : Declaration} (h : d ∈ declarationsOf shape t) : d.StandsIn t := by
  obtain ⟨o, ho, rfl⟩ := List.mem_map.mp h
  obtain ⟨pre, post, ht, hstart, hfind⟩ := exists_of_mem_occurrences ho
  refine ⟨hs _ _ _ hfind, pre, o.found.lead, o.found.tail, post, ?_, rfl, ?_⟩
  · rw [ht, Match.text]
    simp [Declaration.ofOccurrence]
  · rw [size_append, ← hstart]
    rfl

end NamingLint
