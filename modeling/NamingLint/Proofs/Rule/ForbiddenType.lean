import Mathlib.Data.List.Sort
import NamingLint.Proofs.Declaration.Ordered
import NamingLint.Proofs.Text.Lines

/-!
# NamingLint — the type `any` is reported exactly

Whether `any` stands as a type at a position can be told from the character before it and the one
behind it. The search takes the character before it along, so a match might hide the next one. It
does not: that character neither belongs to an identifier nor is a dot, and the other characters of a
match are the letters of the word.

* `anyStandsAt` — `any` stands as a type at a position.

Main results:

* `mem_anyOffsets_iff` — the offsets of the word are those of all its places.
* `anyOffsets_eq` — they come in the order of the positions.
* `any_is_reported_exactly` — the findings in a file, one for each position.
-/

namespace NamingLint.ConstructRule

open Text

/-- Does `any` stand as a type at a position: at the start of the text or behind a character that is
neither part of an identifier nor a dot, and so that no word goes on behind it? -/
def anyStandsAt (t : Text) (i : Nat) : Bool :=
  "any".toList.isPrefixOf (t.drop i) &&
    !(t.take i).getLast?.any (fun c => isIdent c || c = '.') &&
    !(t.drop (i + 3)).head?.any isWord

/-! ## Matches -/

theorem take_anyWord {post : Text} (h : post.head?.any isWord = false) :
    anyWord.take ("any".toList ++ post) = some ("any".toList, post) := by
  simp [anyWord, Piece.seq, Piece.andThen, Piece.word, Piece.wordEnd, h]

/-- What a match takes besides the word: nothing at the start of the text, else one character. -/
theorem find_anyShape {previous : Option Char} {t : Text} {m : Match}
    (h : anyShape.find previous t = some m) : m.name = "any".toList ∧ m.tail = [] ∧
      (previous = none ∧ m.lead = [] ∨ ∃ c, mayPrecedeAny c = true ∧ m.lead = [c]) := by
  rcases Shape.find_orElse h with h | h
  · obtain ⟨hstart, r₁, r₂, r₃, hlead, hname, htail⟩ := Shape.find_ofPieces h
    obtain ⟨hlead, -⟩ : [] = m.lead ∧ t = r₁ := by simpa [Piece.nothing] using hlead
    obtain ⟨htail, -⟩ : [] = m.tail ∧ r₂ = r₃ := by simpa [Piece.nothing] using htail
    exact ⟨(endsAny_of_anyWord hname).1, htail.symm,
      .inl ⟨Option.isNone_iff_eq_none.mp hstart, hlead.symm⟩⟩
  · obtain ⟨-, r₁, r₂, r₃, hlead, hname, htail⟩ := Shape.find_ofPieces h
    obtain ⟨htail, -⟩ : [] = m.tail ∧ r₂ = r₃ := by simpa [Piece.nothing] using htail
    exact ⟨(endsAny_of_anyWord hname).1, htail.symm, .inr (Piece.take_one hlead)⟩

/-- At the start of a text the word is a match by itself. -/
theorem find_anyShape_start {post : Text} (h : post.head?.any isWord = false) :
    anyShape.find none ("any".toList ++ post) = some ⟨[], "any".toList, []⟩ := by
  simp only [anyShape, Shape.orElse, Shape.ofPieces, Piece.nothing, take_anyWord h]
  rfl

/-- Behind a character that may precede it, the word is a match together with that character. -/
theorem find_anyShape_behind {c : Char} (hc : mayPrecedeAny c = true) {post : Text}
    (h : post.head?.any isWord = false) (previous : Option Char) :
    anyShape.find previous (c :: ("any".toList ++ post)) = some ⟨[c], "any".toList, []⟩ := by
  -- the word itself does not start here, since its first letter may not precede it
  have hword : anyWord.take (c :: ("any".toList ++ post)) = none := by
    have hne : 'a' ≠ c := by
      rintro rfl
      exact absurd hc (by decide)
    simp [anyWord, Piece.seq, Piece.andThen, Piece.word, hne]
  have hone : (Piece.one mayPrecedeAny).take (c :: ("any".toList ++ post)) =
      some ([c], "any".toList ++ post) := by
    simp [Piece.one, hc]
  simp only [anyShape, Shape.orElse, Shape.ofPieces, Piece.nothing, hword, hone, take_anyWord h,
    Shape.anywhere, ite_self, if_true]

/-- No match reaches over a character that may precede the word. -/
theorem not_takes_of_mayPrecedeAny {pre r : Text} {c : Char} (hc : mayPrecedeAny c = true)
    {o : Occurrence} (ho : o ∈ occurrences anyShape (pre ++ c :: r)) : ¬ o.Takes pre := by
  intro htakes
  obtain ⟨before, x, y, after, -, hr, hx, hy, -, htext, hfind⟩ := htakes.exists_cut ho
  obtain ⟨hname, htail, hlead⟩ := find_anyShape hfind
  rw [Match.text, hname, htail, List.append_nil] at htext
  obtain ⟨y, rfl⟩ : ∃ z, y = c :: z := by
    cases y with
    | nil => exact absurd rfl hy
    | cons d y => exact ⟨y, by rw [(List.cons.inj hr).1]⟩
  -- behind the first character of a match there are only letters of the word
  have hmem : c ∈ "any".toList := by
    rcases hlead with ⟨-, hlead⟩ | ⟨d, -, hlead⟩
    · rw [hlead, List.nil_append] at htext
      rw [htext]
      simp
    · obtain ⟨e, x, rfl⟩ := List.exists_cons_of_ne_nil hx
      rw [hlead] at htext
      have htext : "any".toList = x ++ c :: y := (List.cons.inj htext).2
      rw [htext]
      simp
  have hletters : "any".toList.all (fun d => !mayPrecedeAny d) = true := by decide
  simpa [hc] using List.all_eq_true.mp hletters c hmem

/-! ## Places -/

/-- The offsets of the word are the sizes of what stands before its places. -/
theorem mem_anyOffsets_iff {t : Text} {n : Nat} :
    n ∈ anyOffsets t ↔ ∃ pre post, t = pre ++ ("any".toList ++ post) ∧ n = size pre ∧
      pre.getLast?.any (fun c => isIdent c || c = '.') = false ∧
      post.head?.any isWord = false := by
  constructor
  · intro h
    obtain ⟨o, ho, rfl⟩ := List.mem_map.mp h
    obtain ⟨pre, post, ht, hstart, hfind⟩ := exists_of_mem_occurrences ho
    obtain ⟨hname, htail, hlead⟩ := find_anyShape hfind
    obtain ⟨-, -, hpost⟩ := delimits_anyShape hfind
    rw [htail, List.nil_append] at hpost
    refine ⟨pre ++ o.found.lead, post, ?_, ?_, ?_, hpost⟩
    · rw [ht, Match.text, hname, htail]
      simp
    · rw [Occurrence.nameStart, hstart, size_append]
    · rcases hlead with ⟨hprevious, hlead⟩ | ⟨c, hc, hlead⟩
      · rw [hlead, List.append_nil, hprevious]
        rfl
      · rw [hlead, List.getLast?_append_of_ne_nil pre (List.cons_ne_nil c [])]
        simpa [mayPrecedeAny] using hc
  · rintro ⟨pre, post, rfl, rfl, hpre, hpost⟩
    rw [anyOffsets, List.mem_map]
    rcases List.eq_nil_or_concat pre with rfl | ⟨pre, c, rfl⟩
    · -- at the start of the text nothing was found before
      have hfind : anyShape.find ([] : Text).getLast? ("any".toList ++ post) =
          some ⟨[], "any".toList, []⟩ := find_anyShape_start hpost
      rcases mem_occurrences_or_takes hfind (by simp) with h | ⟨o, -, htakes⟩
      · exact ⟨_, h, rfl⟩
      · exact absurd htakes.1 (Nat.not_lt_zero _)
    · have hc : mayPrecedeAny c = true := by simpa [mayPrecedeAny] using hpre
      have hsplit : pre.concat c ++ ("any".toList ++ post) = pre ++ c :: ("any".toList ++ post) := by
        simp
      rw [hsplit]
      rcases mem_occurrences_or_takes (find_anyShape_behind hc hpost pre.getLast?)
        (List.cons_ne_nil _ _) with h | ⟨o, ho, htakes⟩
      · exact ⟨_, h, by simp [Occurrence.nameStart]⟩
      · exact absurd htakes (not_takes_of_mayPrecedeAny hc ho)

/-- The test looks at the word and at what stands on both of its sides. -/
theorem anyStandsAt_iff {t : Text} {i : Nat} :
    anyStandsAt t i = true ↔ ∃ post, t.drop i = "any".toList ++ post ∧
      (t.take i).getLast?.any (fun c => isIdent c || c = '.') = false ∧
      post.head?.any isWord = false := by
  have hdrop : t.drop (i + 3) = (t.drop i).drop 3 := by rw [List.drop_drop]
  rw [anyStandsAt, hdrop, Bool.and_eq_true, Bool.and_eq_true, List.isPrefixOf_iff_prefix,
    Bool.not_eq_true', Bool.not_eq_true']
  constructor
  · rintro ⟨⟨⟨post, hpost⟩, hleft⟩, hright⟩
    rw [← hpost] at hright
    exact ⟨post, hpost.symm, hleft, hright⟩
  · rintro ⟨post, hpost, hleft, hright⟩
    rw [hpost]
    exact ⟨⟨List.prefix_append _ _, hleft⟩, hright⟩

/-- The places come in order, each once. -/
theorem pairwise_anyOffsets (t : Text) : (anyOffsets t).Pairwise (· < ·) := by
  rw [anyOffsets, List.pairwise_map]
  refine pairwise_nameStart ?_ t
  intro previous u m hfind
  -- each match takes the whole word, so the next one starts behind it
  rw [(find_anyShape hfind).1]
  decide

/-- The offsets of the word, position by position. -/
theorem anyOffsets_eq (t : Text) :
    anyOffsets t =
      ((List.range t.length).filter (anyStandsAt t)).map fun i => size (t.take i) := by
  -- both lists are in order, so it is enough that they have the same members
  refine List.SortedLT.eq_of_mem_iff (pairwise_anyOffsets t).sortedLT ?_ ?_
  · rw [List.sortedLT_iff_pairwise, List.pairwise_map]
    refine (List.pairwise_lt_range.filter _).imp_of_mem ?_
    intro i j _ hj hlt
    have hj : j < t.length := List.mem_range.mp (List.mem_of_mem_filter hj)
    exact size_lt_of_length_lt (List.take_prefix i t) (List.take_prefix j t)
      (by simp only [List.length_take]; omega)
  · intro n
    rw [mem_anyOffsets_iff, List.mem_map]
    constructor
    · rintro ⟨pre, post, rfl, rfl, hpre, hpost⟩
      refine ⟨pre.length, List.mem_filter.mpr ⟨?_, anyStandsAt_iff.mpr ⟨post, ?_, ?_, hpost⟩⟩, ?_⟩
      · simp
      · rw [List.drop_left]
      · rwa [List.take_left]
      · rw [List.take_left]
    · rintro ⟨i, hi, rfl⟩
      obtain ⟨post, hdrop, hleft, hright⟩ := anyStandsAt_iff.mp (List.mem_filter.mp hi).2
      exact ⟨t.take i, post, by rw [← hdrop, List.take_append_drop], rfl, hleft, hright⟩

/-! ## Findings -/

/-- In a file of one of the two languages there is one finding for each position of the stripped text
where `any` stands as a type, in the order of the positions. It is on the line of that position: one
more than the line feeds before it. In files of other types there is no finding. -/
theorem any_is_reported_exactly (f : SourceFile) :
    noAny.check f =
      if f.type = .typescript ∨ f.type = .javascript then
        ((List.range (Source.strip f.content).length).filter
            (anyStandsAt (Source.strip f.content))).map fun i =>
          ⟨"no-any", "Unexpected `any`; use a specific type or `unknown`",
            ⟨f.path, 1 + ((Source.strip f.content).take i).count '\n'⟩⟩
      else [] := by
  have htype : mayHoldAny f.type = true ↔ f.type = .typescript ∨ f.type = .javascript := by
    simp [mayHoldAny]
  rw [noAny, ← f.stripped_eq]
  simp only [anyOffsets_eq, List.map_map, htype]
  split
  · apply List.map_congr_left
    intro i _
    -- the bytes before an offset are those of the characters before the position
    have hline : f.lineAt (size (f.stripped.take i)) = 1 + (f.stripped.take i).count '\n' := by
      have h := lineAt_size (f.stripped.take i) (f.stripped.drop i)
      rwa [List.take_append_drop] at h
    simp only [Function.comp_apply, anyFinding, hline]
  · rfl

/-- Neighbours of all sorts: a match right behind another, a dot, a letter beyond ASCII before the word
and one behind it, and a dollar sign on either side. -/
example : (List.range 41).filter
    (anyStandsAt "any any,any.any x.any éany anyé any$ $any".toList) = [0, 4, 8, 23, 32] := by
  decide

end NamingLint.ConstructRule
