import Mathlib.Data.List.Basic
import NamingLint.Text.Blank
import NamingLint.Text.Word

/-!
# NamingLint — cutting texts at bytes

Offsets count bytes. Where an offset is the size of a prefix, cutting there gives that prefix and
the rest, so all reasoning about offsets is reasoning about prefixes.

Main results:

* `takeBytes_size`, `dropBytes_size`, `slice_size` — cuts at the sizes of prefixes.
* `trim_word` — trimming leaves a word without blanks whole.
* `IsIdentifier` — a name as declarations have them; it has neither blanks nor line feeds.
-/

namespace NamingLint.Text

/-! ## Cuts -/

/-- A text that starts with a character has a positive size. -/
theorem exists_size_cons (c : Char) (t : Text) : ∃ n, size (c :: t) = n + 1 := by
  have hpos : 0 < c.utf8Size := c.utf8Size_pos
  exact ⟨c.utf8Size + size t - 1, by rw [size_cons]; omega⟩

@[simp] theorem takeBytes_size (t u : Text) : takeBytes (size t) (t ++ u) = t := by
  induction t with
  | nil => simp [takeBytes]
  | cons c t ih =>
    obtain ⟨n, hn⟩ := exists_size_cons c t
    rw [hn, List.cons_append, takeBytes, ← hn, size_cons, Nat.add_sub_cancel_left, ih]

@[simp] theorem dropBytes_size (t u : Text) : dropBytes (size t) (t ++ u) = u := by
  induction t with
  | nil => simp [dropBytes]
  | cons c t ih =>
    obtain ⟨n, hn⟩ := exists_size_cons c t
    rw [hn, List.cons_append, dropBytes, ← hn, size_cons, Nat.add_sub_cancel_left, ih]

theorem slice_size (a b c : Text) :
    slice (a ++ (b ++ c)) ⟨size a, size a + size b⟩ = b := by
  simp only [slice, dropBytes_size, Nat.add_sub_cancel_left, takeBytes_size]

/-! ## Identifiers -/

/-- A name: some characters, all of which may stand in identifiers. -/
structure IsIdentifier (w : Text) : Prop where
  ne_nil : w ≠ []
  all_ident : ∀ c ∈ w, isIdent c = true

/-- The codes of identifier characters. -/
theorem toNat_of_isIdent {c : Char} (h : isIdent c = true) :
    c.toNat = 36 ∨ (48 ≤ c.toNat ∧ c.toNat ≤ 122) := by
  have hval : c.val.toNat = c.toNat := rfl
  -- the test spelled out: letters, digits, underscore and dollar
  have hcases : ((decide (65 ≤ c.val ∧ c.val ≤ 90) || 97 ≤ c.val && c.val ≤ 122) ||
      48 ≤ c.val && c.val ≤ 57 || c == '_' || c == '$') = true := h
  simp only [Bool.or_eq_true, Bool.and_eq_true, decide_eq_true_eq, beq_iff_eq,
    UInt32.le_iff_toNat_le] at hcases
  rcases hcases with (hletter | rfl) | rfl
  · simp at hletter
    omega
  · right
    decide
  · left
    decide

/-- No character of an identifier is white space. -/
theorem not_isBlank_of_isIdent {c : Char} (h : isIdent c = true) : isBlank c = false := by
  have hc := toNat_of_isIdent h
  simp only [isBlank, Bool.or_eq_false_iff, Bool.and_eq_false_iff, decide_eq_false_iff_not,
    beq_eq_false_iff_ne]
  omega

namespace IsIdentifier

variable {w : Text}

theorem not_mem (h : IsIdentifier w) {c : Char} (hc : isIdent c = false) : c ∉ w := by
  intro hmem
  rw [h.all_ident c hmem] at hc
  exact absurd hc (by decide)

theorem feed_not_mem (h : IsIdentifier w) : '\n' ∉ w :=
  h.not_mem (by decide)

theorem return_not_mem (h : IsIdentifier w) : '\r' ∉ w :=
  h.not_mem (by decide)

/-- An identifier starts with a character that is not blank. -/
theorem exists_cons (h : IsIdentifier w) : ∃ c v, w = c :: v ∧ isBlank c = false := by
  obtain ⟨c, v, rfl⟩ := List.exists_cons_of_ne_nil h.ne_nil
  exact ⟨c, v, rfl, not_isBlank_of_isIdent (h.all_ident c (by simp))⟩

protected theorem reverse (h : IsIdentifier w) : IsIdentifier w.reverse where
  ne_nil := by simp [h.ne_nil]
  all_ident := by simpa using h.all_ident

end IsIdentifier

/-! ## Trimming -/

/-- Nothing is trimmed beyond a word. -/
theorem trimStart_word {w : Text} (hw : IsIdentifier w) (a b : Text) :
    trimStart (a ++ (w ++ b)) = trimStart a ++ (w ++ b) := by
  obtain ⟨c, v, rfl, hc⟩ := hw.exists_cons
  simp only [trimStart]
  rw [List.dropWhile_append]
  split
  · rename_i h
    rw [List.isEmpty_iff] at h
    rw [h, List.cons_append, List.dropWhile_cons_of_neg (by simp [hc]), List.nil_append]
  · rfl

/-- White space is trimmed up to a word, not further. -/
theorem trimEnd_word {w : Text} (hw : IsIdentifier w) (a b : Text) :
    trimEnd (a ++ w ++ b) = a ++ w ++ trimEnd b := by
  -- from the other side
  have h := trimStart_word hw.reverse b.reverse a.reverse
  simp only [trimStart] at h
  simp only [trimEnd, List.reverse_append]
  rw [h]
  simp

/-- Trimming leaves a word whole, with what stands right before and right after it. -/
theorem trim_word {w : Text} (hw : IsIdentifier w) (a b : Text) :
    ∃ x a' b' y, a = x ++ a' ∧ b = b' ++ y ∧ trim (a ++ w ++ b) = a' ++ w ++ b' := by
  obtain ⟨x, hx⟩ : trimStart a <:+ a := List.dropWhile_suffix _
  obtain ⟨y, hy⟩ : (b.reverse.dropWhile isBlank) <:+ b.reverse := List.dropWhile_suffix _
  refine ⟨x, trimStart a, trimEnd b, y.reverse, hx.symm, ?_, ?_⟩
  · rw [trimEnd, ← List.reverse_append, hy, List.reverse_reverse]
  · rw [trim, List.append_assoc, trimStart_word hw, ← List.append_assoc, trimEnd_word hw]

end NamingLint.Text
