import Mathlib.Data.List.Basic
import Mathlib.Order.Fin.Basic
import NamingLint.Proofs.Text.Lines
import NamingLint.Source.File

/-!
# NamingLint — where stripped characters come from

Stripping drops characters and neither adds, moves nor changes one, and it drops no line feed. So
every character of the stripped text has an origin in the source, and the two texts agree line by
line.

* `Source.origin` — the position in the source of a character of the stripped text.
* `Source.Unbroken` — a stretch of the stripped text whose characters are neighbours in the source.

Main results:

* `take_strip` — what stands before a character of the stripped text is what stripping leaves of
  what stands before its origin.
* `forall₂_splitOn_strip` — both texts have the same number of lines, and each stripped line is a
  subsequence of its source line.
* `strip_line_faithful` — the two together: a line number computed on the stripped text holds for
  the source.
-/

namespace NamingLint.Source

open Text

/-! ## Marks -/

/-- Marking keeps the text. -/
@[simp] theorem map_fst_mark (s : State) (t : Text) : (mark s t).map Prod.fst = t := by
  fun_induction mark s t <;> simp_all

@[simp] theorem length_mark (s : State) (t : Text) : (mark s t).length = t.length := by
  rw [← List.length_map Prod.fst, map_fst_mark]

/-- A character of the source with its mark. -/
theorem getElem?_mark (s : State) (t : Text) (j : Nat) :
    ((mark s t)[j]?).map Prod.fst = t[j]? := by
  rw [← List.getElem?_map, map_fst_mark]

theorem isKept_of_feed {m : Char × Region} (h : m.1 = '\n') : isKept m = true := by
  simp [isKept, h]

/-- What stripping leaves of some marked characters. -/
def kept (ms : List (Char × Region)) : Text :=
  (ms.filter isKept).map Prod.fst

theorem strip_eq_kept (raw : Text) : strip raw = kept (mark .code raw) := rfl

theorem kept_cons_of_pos {m : Char × Region} (hm : isKept m = true) (ms : List (Char × Region)) :
    kept (m :: ms) = m.1 :: kept ms := by
  rw [kept, List.filter_cons_of_pos hm, List.map_cons, kept]

theorem kept_cons_of_neg {m : Char × Region} (hm : ¬ isKept m = true)
    (ms : List (Char × Region)) : kept (m :: ms) = kept ms := by
  rw [kept, List.filter_cons_of_neg hm, kept]

theorem kept_append (ms ns : List (Char × Region)) : kept (ms ++ ns) = kept ms ++ kept ns := by
  rw [kept, List.filter_append, List.map_append, kept, kept]

/-- Stripping loses no line feed. -/
theorem count_feed_kept (ms : List (Char × Region)) :
    (kept ms).count '\n' = (ms.map Prod.fst).count '\n' := by
  induction ms with
  | nil => rfl
  | cons m ms ih =>
    by_cases hk : isKept m = true
    · rw [kept_cons_of_pos hk, List.map_cons, List.count_cons, List.count_cons, ih]
    · have hm : m.1 ≠ '\n' := fun h => hk (isKept_of_feed h)
      rw [kept_cons_of_neg hk, ih, List.map_cons, List.count_cons_of_ne hm]

/-! ## Origins -/

/-- The position in the source of the character at place `i` of the stripped text. -/
def origin (raw : Text) (i : Nat) : Nat :=
  (mark .code raw).findIdxNth isKept i

theorem length_strip (raw : Text) : (strip raw).length = (mark .code raw).countP isKept := by
  rw [strip_eq_kept, kept, List.length_map, List.countP_eq_length_filter]

/-- Each character left comes from a place in the raw text. -/
theorem origin_lt {raw : Text} {i : Nat} (hi : i < (strip raw).length) :
    origin raw i < raw.length := by
  rw [length_strip] at hi
  rw [← length_mark .code raw]
  exact List.findIdxNth_lt_length_of_lt_countP hi

/-- The characters left keep their order. -/
theorem origin_lt_origin {raw : Text} {i j : Nat} (hi : i < (strip raw).length) (hij : i < j) :
    origin raw i < origin raw j := by
  rw [length_strip] at hi
  exact (List.findIdxNth_lt_findIdxNth_iff_of_lt_countP hi).mpr hij

/-- The first `n` characters that pass a test stand before the one that is number `n`. -/
private theorem take_filter {α : Type} (p : α → Bool) (l : List α) (n : Nat) :
    (l.filter p).take n = (l.take (l.findIdxNth p n)).filter p := by
  induction l generalizing n with
  | nil => simp
  | cons a l ih =>
    cases hp : p a <;> cases n <;> simp_all

/-- What stands before a character of the stripped text is what stripping leaves of what stands
before its origin. -/
theorem take_strip (raw : Text) (i : Nat) :
    (strip raw).take i = kept ((mark .code raw).take (origin raw i)) := by
  rw [strip_eq_kept, kept, kept, ← List.map_take, take_filter, origin]

/-- A character is the same as at its origin, and its mark is one that stripping keeps. -/
theorem getElem?_strip {raw : Text} {i : Nat} (hi : i < (strip raw).length) :
    ∃ m, (mark .code raw)[origin raw i]? = some m ∧ isKept m = true ∧
      (strip raw)[i]? = some m.1 := by
  have hfilter : i < ((mark .code raw).filter isKept).length := by
    rwa [← List.countP_eq_length_filter, ← length_strip]
  have hlt : origin raw i < (mark .code raw).length := by
    rw [length_mark]
    exact origin_lt hi
  -- the origin is the place of the kept mark with this number
  have hat : ((mark .code raw).filter isKept)[i] = (mark .code raw)[origin raw i] := by
    rw [List.getElem_filter_eq_getElem_getElem_findIdxs]
    simp only [List.getElem_findIdxs_eq_findIdxNth, origin]
  refine ⟨(mark .code raw)[origin raw i], List.getElem?_eq_getElem hlt, ?_, ?_⟩
  · rw [← hat]
    exact (List.mem_filter.mp (List.getElem_mem hfilter)).2
  · rw [strip_eq_kept, kept, List.getElem?_map, List.getElem?_eq_getElem hfilter, hat]
    rfl

/-- Each character left is the one at its origin. -/
theorem getElem?_origin {raw : Text} {i : Nat} (hi : i < (strip raw).length) :
    raw[origin raw i]? = (strip raw)[i]? := by
  obtain ⟨m, hm, -, hc⟩ := getElem?_strip hi
  rw [hc, ← getElem?_mark .code raw, hm, Option.map_some]

/-- Every character that stripping keeps is the origin of one. -/
theorem exists_origin_eq {raw : Text} {j : Nat} {m : Char × Region}
    (hj : (mark .code raw)[j]? = some m) (hm : isKept m = true) :
    ∃ i, i < (strip raw).length ∧ origin raw i = j := by
  obtain ⟨hlt, hat⟩ := List.getElem?_eq_some_iff.mp hj
  have hmem : j ∈ (mark .code raw).findIdxs isKept :=
    List.mem_findIdxs_iff_exists_getElem_pos.mpr ⟨hlt, by rw [hat, hm]⟩
  obtain ⟨i, hi, hij⟩ := List.getElem_of_mem hmem
  refine ⟨i, ?_, ?_⟩
  · rwa [length_strip, ← List.length_findIdxs]
  · rw [origin, ← hij, List.getElem_findIdxs_eq_findIdxNth]

/-- As many line feeds stand before a character of the stripped text as before its origin. -/
theorem count_feed_take_strip (raw : Text) (i : Nat) :
    ((strip raw).take i).count '\n' = (raw.take (origin raw i)).count '\n' := by
  rw [take_strip, count_feed_kept, List.map_take, map_fst_mark]

/-! ## Stretches -/

/-- The `n` characters from place `i` of the stripped text on are neighbours in the source. -/
def Unbroken (raw : Text) (i n : Nat) : Prop :=
  ∀ k < n, origin raw (i + k) = origin raw i + k

instance (raw : Text) (i n : Nat) : Decidable (Unbroken raw i n) :=
  inferInstanceAs (Decidable (∀ k < n, origin raw (i + k) = origin raw i + k))

/-- An unbroken stretch stands in the source as it stands in the stripped text. -/
theorem Unbroken.slice_eq {raw : Text} {i n : Nat} (h : Unbroken raw i n)
    (hn : i + n ≤ (strip raw).length) :
    (raw.drop (origin raw i)).take n = ((strip raw).drop i).take n := by
  apply List.ext_getElem?
  intro k
  by_cases hk : k < n
  · rw [List.getElem?_take_of_lt hk, List.getElem?_take_of_lt hk, List.getElem?_drop,
      List.getElem?_drop, ← h k hk]
    exact getElem?_origin (by omega)
  · rw [List.getElem?_take_eq_none (by omega), List.getElem?_take_eq_none (by omega)]

/-! ## Lines -/

/-- Piece by piece, what is left of marked characters is a subsequence of them. -/
theorem forall₂_splitOn_kept (ms : List (Char × Region)) :
    List.Forall₂ List.Sublist (splitOn '\n' (kept ms)) (splitOn '\n' (ms.map Prod.fst)) := by
  induction ms with
  | nil => exact .cons (List.Sublist.refl _) .nil
  | cons m ms ih =>
    obtain ⟨c, region⟩ := m
    by_cases hc : c = '\n'
    · -- both texts end a piece here
      subst hc
      rw [kept_cons_of_pos (isKept_of_feed rfl), List.map_cons, splitOn_cons_self,
        splitOn_cons_self]
      exact .cons (List.Sublist.refl _) ih
    · obtain ⟨q, qs, hq, hraw⟩ := splitOn_cons_of_ne hc (ms.map Prod.fst)
      rw [List.map_cons, hraw]
      rw [hq] at ih
      by_cases hk : isKept (c, region) = true
      · obtain ⟨p, ps, hp, hout⟩ := splitOn_cons_of_ne hc (kept ms)
        rw [hp] at ih
        obtain ⟨hpq, hrest⟩ := List.forall₂_cons.mp ih
        rw [kept_cons_of_pos hk, hout]
        exact .cons (hpq.cons_cons c) hrest
      · obtain ⟨p, ps, hp⟩ := List.exists_cons_of_ne_nil (splitOn_ne_nil '\n' (kept ms))
        rw [hp] at ih
        obtain ⟨hpq, hrest⟩ := List.forall₂_cons.mp ih
        rw [kept_cons_of_neg hk, hp]
        exact .cons (hpq.cons c) hrest

/-- Each line is what is left of the raw line with its number. -/
theorem forall₂_splitOn_strip (raw : Text) :
    List.Forall₂ List.Sublist (splitOn '\n' (strip raw)) (splitOn '\n' raw) := by
  have h := forall₂_splitOn_kept (mark .code raw)
  rwa [map_fst_mark] at h

/-- The line of a byte of the stripped text, by the origin of the character that starts there. -/
theorem lineAt_strip (raw : Text) (i : Nat) :
    lineAt (strip raw) (size ((strip raw).take i)) = 1 + (raw.take (origin raw i)).count '\n' := by
  have h := lineAt_size ((strip raw).take i) ((strip raw).drop i)
  rwa [List.take_append_drop, count_feed_take_strip] at h

/-- A map from the places of the stripped text to positions of the source that keeps the order and
the characters and reaches exactly what stripping keeps, every line feed included. Both texts have
the same lines but for what is dropped inside them, and the line of a byte of the stripped text is
the line of the character it comes from. -/
theorem strip_line_faithful (raw : Text) :
    ∃ φ : Fin (strip raw).length → Fin raw.length,
      StrictMono φ ∧
      (∀ i, raw.get (φ i) = (strip raw).get i) ∧
      (∀ j, raw.get j = '\n' → ∃ i, φ i = j) ∧
      (∀ j, (∃ i, φ i = j) ↔ ∃ m, (mark .code raw)[j.val]? = some m ∧ isKept m = true) ∧
      List.Forall₂ List.Sublist (splitOn '\n' (strip raw)) (splitOn '\n' raw) ∧
      ∀ (path root : Path) (type : FileType) (i : Fin (strip raw).length),
        (SourceFile.ofContent path root type raw).lineAt (size ((strip raw).take i)) =
          1 + (raw.take (φ i)).count '\n' := by
  -- the places that characters come from are those of the kept marks
  have hkept : ∀ j : Fin raw.length,
      (∃ i : Fin (strip raw).length, (⟨origin raw i, origin_lt i.2⟩ : Fin raw.length) = j) ↔
        ∃ m, (mark .code raw)[j.val]? = some m ∧ isKept m = true := by
    intro j
    constructor
    · rintro ⟨i, rfl⟩
      obtain ⟨m, hm, hk, -⟩ := getElem?_strip i.2
      exact ⟨m, hm, hk⟩
    · rintro ⟨m, hm, hk⟩
      obtain ⟨i, hi, hij⟩ := exists_origin_eq hm hk
      exact ⟨⟨i, hi⟩, Fin.ext hij⟩
  refine ⟨fun i => ⟨origin raw i, origin_lt i.2⟩, ?_, ?_, ?_, hkept, forall₂_splitOn_strip raw, ?_⟩
  · intro i j hij
    exact origin_lt_origin i.2 hij
  · intro i
    have h := getElem?_origin i.2
    rw [List.getElem?_eq_getElem (origin_lt i.2), List.getElem?_eq_getElem i.2] at h
    exact Option.some.inj h
  · intro j hj
    rw [hkept]
    have hmark := getElem?_mark .code raw j
    rw [List.getElem?_eq_getElem j.2, Option.map_eq_some_iff] at hmark
    obtain ⟨m, hm, hc⟩ := hmark
    exact ⟨m, hm, isKept_of_feed (hc.trans hj)⟩
  · intro path root type i
    exact lineAt_strip raw i

end NamingLint.Source
