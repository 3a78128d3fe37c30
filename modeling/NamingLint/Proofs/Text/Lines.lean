import Mathlib.Data.List.Basic
import NamingLint.Text.Basic

/-!
# NamingLint — words, pieces and lines

How the ways to look at a text fit together: as characters, as bytes, as pieces between separators,
and as lines.

Main results:

* `contains_iff` — `contains` is contiguous occurrence.
* `lineAt_size` — the line of a byte is one more than the number of line feeds in front of it.
* `exists_piece_of_word`, `exists_line_of_word` — a word stands in the piece, and in the line, whose
  number is told by the separators in front of it.
-/

namespace NamingLint.Text

/-! ## Occurrence -/

/-- The search finds every occurrence of a word. -/
theorem contains_iff {w t : Text} : contains w t = true ↔ w <:+: t := by
  induction t with
  | nil => simp [contains]
  | cons c t ih =>
    rw [contains, Bool.or_eq_true, ih, List.isPrefixOf_iff_prefix, List.infix_cons_iff]

/-- What a word contains is contained wherever the word is. -/
theorem contains_trans {v w t : Text} (hv : contains v w = true) (hw : contains w t = true) :
    contains v t = true := by
  rw [contains_iff] at *
  exact hv.trans hw

/-- What stands nowhere in a text stands nowhere behind its first character. -/
theorem contains_of_cons {w t : Text} {c : Char} (h : contains w (c :: t) = false) :
    contains w t = false :=
  (Bool.or_eq_false_iff.mp h).2

/-! ## Bytes -/

/-- The bytes of a prefix hold the line feeds of that prefix. -/
theorem feedsBefore_size (t u : Text) : feedsBefore (size t) (t ++ u) = t.count '\n' := by
  induction t with
  | nil => cases u <;> simp [feedsBefore]
  | cons c t ih =>
    have hpos : 0 < c.utf8Size := c.utf8Size_pos
    obtain ⟨n, hn⟩ : ∃ n, size (c :: t) = n + 1 := ⟨c.utf8Size + size t - 1, by simp; omega⟩
    rw [hn, List.cons_append, feedsBefore, ← hn, List.count_cons]
    simp [ih, Nat.add_comm]

theorem lineAt_size (t u : Text) : lineAt (t ++ u) (size t) = 1 + t.count '\n' := by
  rw [lineAt, feedsBefore_size]

/-! ## Pieces between separators -/

theorem splitOn_ne_nil (sep : Char) (t : Text) : splitOn sep t ≠ [] := by
  cases t with
  | nil => simp [splitOn]
  | cons c t =>
    rw [splitOn]
    split
    · simp
    · split <;> simp

theorem splitOn_cons_self (sep : Char) (t : Text) :
    splitOn sep (sep :: t) = [] :: splitOn sep t := by
  simp [splitOn]

/-- A character that separates nothing joins the first piece. -/
theorem splitOn_cons_of_ne {sep c : Char} (hc : c ≠ sep) (t : Text) :
    ∃ p ps, splitOn sep t = p :: ps ∧ splitOn sep (c :: t) = (c :: p) :: ps := by
  obtain ⟨p, ps, hs⟩ := List.exists_cons_of_ne_nil (splitOn_ne_nil sep t)
  exact ⟨p, ps, hs, by simp [splitOn, hc, hs]⟩

/-- A separator ends the pieces in front of it. -/
theorem splitOn_append_cons (sep : Char) (t u : Text) :
    splitOn sep (t ++ sep :: u) = splitOn sep t ++ splitOn sep u := by
  induction t with
  | nil => rw [List.nil_append, splitOn_cons_self]; rfl
  | cons c t ih =>
    by_cases hc : c = sep
    · rw [hc, List.cons_append, splitOn_cons_self, splitOn_cons_self, ih, List.cons_append]
    · -- `c` goes in front of the first part on both sides
      obtain ⟨p, ps, hs, hsplit⟩ := splitOn_cons_of_ne hc t
      obtain ⟨q, qs, hs', hsplit'⟩ := splitOn_cons_of_ne hc (t ++ sep :: u)
      rw [ih, hs, List.cons_append, List.cons.injEq] at hs'
      rw [List.cons_append, hsplit', hsplit, ← hs'.1, ← hs'.2, List.cons_append]

/-- Without a separator there is one part. -/
theorem splitOn_of_not_mem {sep : Char} {t : Text} (h : sep ∉ t) : splitOn sep t = [t] := by
  induction t with
  | nil => rfl
  | cons c t ih =>
    simp only [List.mem_cons, not_or] at h
    simp [splitOn, Ne.symm h.1, ih h.2]

/-- A word in front of a text is the start of its first piece. -/
theorem splitOn_word_append {sep : Char} {w : Text} (hw : sep ∉ w) (post : Text) :
    ∃ b ps, splitOn sep (w ++ post) = (w ++ b) :: ps := by
  induction w with
  | nil =>
    obtain ⟨p, ps, hs⟩ := List.exists_cons_of_ne_nil (splitOn_ne_nil sep post)
    exact ⟨p, ps, hs⟩
  | cons c w ih =>
    simp only [List.mem_cons, not_or] at hw
    obtain ⟨b, ps, ih⟩ := ih hw.2
    obtain ⟨p, qs, hs, hsplit⟩ := splitOn_cons_of_ne (Ne.symm hw.1) (w ++ post)
    rw [ih, List.cons.injEq] at hs
    exact ⟨b, ps, by rw [List.cons_append, hsplit, ← hs.1, ← hs.2, List.cons_append]⟩

/-- A word stands in one piece; the separators in front of it tell which. -/
theorem exists_piece_of_word {sep : Char} {w : Text} (hw : sep ∉ w) (pre post : Text) :
    ∃ a b, (splitOn sep (pre ++ w ++ post))[pre.count sep]? = some (a ++ w ++ b) := by
  induction pre with
  | nil =>
    obtain ⟨b, ps, hs⟩ := splitOn_word_append hw post
    exact ⟨[], b, by simp [hs]⟩
  | cons c pre ih =>
    obtain ⟨a, b, ih⟩ := ih
    by_cases hc : c = sep
    · subst hc
      refine ⟨a, b, ?_⟩
      rw [List.cons_append, List.cons_append, splitOn_cons_self, List.count_cons_self,
        List.getElem?_cons_succ, ih]
    · obtain ⟨p, ps, hs, hsplit⟩ := splitOn_cons_of_ne hc (pre ++ w ++ post)
      rw [List.cons_append, List.cons_append, hsplit, List.count_cons_of_ne hc]
      rw [hs] at ih
      -- `c` lengthens the piece of the word only if that piece is the first one
      cases hn : pre.count sep with
      | zero =>
        rw [hn, List.getElem?_cons_zero, Option.some.injEq] at ih
        exact ⟨c :: a, b, by simp [ih]⟩
      | succ n =>
        rw [hn, List.getElem?_cons_succ] at ih
        exact ⟨a, b, by rw [List.getElem?_cons_succ, ih]⟩

/-! ## Lines -/

/-- A piece with something in it is a line, up to the carriage return of its ending. -/
theorem getElem?_linesOfPieces {ps : List Text} {k : Nat} {p : Text} (hk : ps[k]? = some p)
    (hp : p ≠ []) :
    (linesOfPieces ps)[k]? = some p ∨ (linesOfPieces ps)[k]? = some (dropReturn p) := by
  induction ps generalizing k with
  | nil => simp at hk
  | cons q ps ih =>
    -- only the last piece keeps its return
    match ps, k with
    | [], 0 =>
      rw [List.getElem?_cons_zero, Option.some.injEq] at hk
      subst hk
      left
      simp [linesOfPieces, hp]
    | [], k + 1 => simp at hk
    | r :: ps, 0 =>
      rw [List.getElem?_cons_zero, Option.some.injEq] at hk
      subst hk
      right
      simp [linesOfPieces]
    | r :: ps, k + 1 =>
      rw [List.getElem?_cons_succ] at hk
      rw [linesOfPieces, List.getElem?_cons_succ]
      exact ih hk

/-- Dropping the carriage return of an ending cuts no word short. -/
theorem dropReturn_word {w : Text} (hne : w ≠ []) (hr : '\r' ∉ w) (a b : Text) :
    ∃ b', dropReturn (a ++ w ++ b) = a ++ w ++ b' := by
  rw [dropReturn]
  split
  · rename_i hlast
    rcases List.eq_nil_or_concat b with rfl | ⟨b', c, rfl⟩
    · -- the last character would be one of `w`
      obtain ⟨w', c, rfl⟩ := (List.eq_nil_or_concat w).resolve_left hne
      simp at hlast hr
      exact absurd hlast.symm hr.2
    · exact ⟨b', by simp⟩
  · exact ⟨b, rfl⟩

/-- A word stands in one line; the line feeds in front of it tell which. -/
theorem exists_line_of_word {w : Text} (hne : w ≠ []) (hn : '\n' ∉ w) (hr : '\r' ∉ w)
    (pre post : Text) :
    ∃ a b, (lines (pre ++ w ++ post))[pre.count '\n']? = some (a ++ w ++ b) := by
  obtain ⟨a, b, hpiece⟩ := exists_piece_of_word hn pre post
  have hsome : a ++ w ++ b ≠ [] := by simp [hne]
  rcases getElem?_linesOfPieces hpiece hsome with h | h
  · exact ⟨a, b, h⟩
  · obtain ⟨b', hb⟩ := dropReturn_word hne hr a b
    exact ⟨a, b', by rw [lines, h, hb]⟩

/-- The first line stands in front of the first line feed. -/
theorem lines_of_feed {x : Text} (hx : '\n' ∉ x) (y : Text) :
    ∃ ls, lines (x ++ '\n' :: y) = dropReturn x :: ls := by
  obtain ⟨p, ps, hp⟩ := List.exists_cons_of_ne_nil (splitOn_ne_nil '\n' y)
  refine ⟨linesOfPieces (p :: ps), ?_⟩
  rw [lines, splitOn_append_cons, splitOn_of_not_mem hx, hp]
  rfl

/-- Without a line feed there is one line, unless the text is empty. -/
theorem lines_of_not_mem {t : Text} (h : '\n' ∉ t) : lines t = if t.isEmpty then [] else [t] := by
  rw [lines, splitOn_of_not_mem h]
  rfl

/-- The parts hold nothing the text does not. -/
theorem subset_of_mem_splitOn {sep : Char} {t p : Text} (h : p ∈ splitOn sep t) : p ⊆ t := by
  induction t generalizing p with
  | nil =>
    rw [splitOn, List.mem_singleton] at h
    rw [h]
    exact List.nil_subset _
  | cons c t ih =>
    by_cases hc : c = sep
    · rw [hc, splitOn_cons_self] at h
      rcases List.mem_cons.mp h with rfl | h
      · exact List.nil_subset _
      · exact fun d hd => List.mem_cons_of_mem c (ih h hd)
    · -- `c` goes in front of the first part of the rest
      obtain ⟨q, qs, hq, hcons⟩ := splitOn_cons_of_ne hc t
      rw [hcons] at h
      rcases List.mem_cons.mp h with rfl | h
      · exact List.cons_subset_cons c (ih (hq ▸ List.mem_cons_self))
      · exact fun d hd => List.mem_cons_of_mem c (ih (hq ▸ List.mem_cons_of_mem q h) hd)

/-- A line holds characters of the text only. -/
theorem subset_of_mem_lines {t l : Text} (h : l ∈ lines t) : l ⊆ t := by
  have hreturn : ∀ p : Text, dropReturn p ⊆ p := by
    intro p
    rw [dropReturn]
    split
    · exact List.dropLast_subset p
    · exact List.Subset.refl p
  -- a line is a piece, with or without a carriage return at its end
  have hpieces : ∀ {ps : List Text}, l ∈ linesOfPieces ps → ∃ p ∈ ps, l ⊆ p := by
    intro ps
    induction ps with
    | nil => simp [linesOfPieces]
    | cons p ps ih =>
      intro hl
      cases ps with
      | nil =>
        rw [linesOfPieces] at hl
        split at hl
        · simp at hl
        · rw [List.mem_singleton] at hl
          exact ⟨p, List.mem_cons_self, hl ▸ List.Subset.refl l⟩
      | cons q qs =>
        rw [linesOfPieces] at hl
        rcases List.mem_cons.mp hl with rfl | hl
        · exact ⟨p, List.mem_cons_self, hreturn p⟩
        · obtain ⟨p', hp', hsub⟩ := ih hl
          exact ⟨p', List.mem_cons_of_mem p hp', hsub⟩
  obtain ⟨p, hp, hsub⟩ := hpieces h
  exact fun c hc => subset_of_mem_splitOn hp (hsub hc)

end NamingLint.Text
