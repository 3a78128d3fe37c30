import Mathlib.Data.List.Basic
import Mathlib.Data.List.Infix
import NamingLint.Proofs.Text.Bytes
import NamingLint.Proofs.Text.Lines

/-!
# NamingLint — line endings

A line may end in a line feed, or in a carriage return and a line feed. In texts whose carriage
returns all belong to line endings, leaving them out changes neither lines nor what stands in them.

* `Text.withReturns` — the text with a carriage return before each line feed.
* `Text.plain` — the text without carriage returns.
* `Text.Paired` — every carriage return stands right before a line feed. The induction over it goes
  from line ending to line ending, where the two texts part.
* `Text.plainOffset` — the offset in the plain text of an offset in the text.

Main results:

* `takeWhile_plain`, `dropWhile_plain` — runs of a class of characters.
* `lines_plain`, `lineAt_plain` — lines and their numbers.
* `plainOffset_lt_iff` — the order of offsets.
-/

namespace NamingLint.Text

/-- The text with a carriage return before each line feed. -/
def withReturns : Text → Text
  | [] => []
  | c :: t => if c = '\n' then '\r' :: '\n' :: withReturns t else c :: withReturns t

/-- The text without carriage returns. -/
def plain (t : Text) : Text :=
  t.filter (· ≠ '\r')

/-- Every carriage return stands right before a line feed. -/
inductive Paired : Text → Prop where
  | nil : Paired []
  | keep {c : Char} {t : Text} (hc : c ≠ '\r') (h : Paired t) : Paired (c :: t)
  | pair {t : Text} (h : Paired t) : Paired ('\r' :: '\n' :: t)

/-! ## Plain texts -/

@[simp] theorem plain_nil : plain [] = [] := rfl

@[simp] theorem plain_return (t : Text) : plain ('\r' :: t) = plain t := rfl

@[simp] theorem plain_feed (t : Text) : plain ('\n' :: t) = '\n' :: plain t := rfl

theorem plain_cons {c : Char} (hc : c ≠ '\r') (t : Text) : plain (c :: t) = c :: plain t := by
  simp [plain, hc]

@[simp] theorem plain_append (t u : Text) : plain (t ++ u) = plain t ++ plain u := by
  simp [plain]

theorem plain_reverse (t : Text) : plain t.reverse = (plain t).reverse := by
  simp [plain, List.filter_reverse]

/-- A text without carriage returns is plain. -/
theorem plain_of_not_mem {t : Text} (h : '\r' ∉ t) : plain t = t := by
  rw [plain, List.filter_eq_self]
  intro c hc
  rw [decide_eq_true_eq]
  rintro rfl
  exact h hc

@[simp] theorem mem_plain {c : Char} {t : Text} : c ∈ plain t ↔ c ∈ t ∧ c ≠ '\r' := by
  simp [plain]

/-- No line feed is left out. -/
theorem count_feed_plain (t : Text) : (plain t).count '\n' = t.count '\n' := by
  rw [plain, List.count_filter (by decide)]

/-- A text that ends in something else than a carriage return ends the same way without them. -/
theorem getLast?_plain {t : Text} (h : t.getLast? ≠ some '\r') :
    (plain t).getLast? = t.getLast? := by
  rcases List.eq_nil_or_concat' t with rfl | ⟨u, c, rfl⟩
  · rfl
  · have hc : c ≠ '\r' := by simpa using h
    rw [plain_append, plain_cons hc, plain_nil]
    simp

/-- Carriage returns that were put in are the ones that are left out. -/
theorem plain_withReturns {t : Text} (h : '\r' ∉ t) : plain (withReturns t) = t := by
  induction t with
  | nil => rfl
  | cons c t ih =>
    obtain ⟨hc, ht⟩ : '\r' ≠ c ∧ '\r' ∉ t := by simpa using h
    rw [withReturns]
    split
    · rename_i hfeed
      rw [plain_return, plain_feed, ih ht, hfeed]
    · rw [plain_cons hc.symm, ih ht]

/-! ## Paired texts -/

/-- Carriage returns are put in before line feeds only. -/
theorem paired_withReturns {t : Text} (h : '\r' ∉ t) : Paired (withReturns t) := by
  induction t with
  | nil => exact .nil
  | cons c t ih =>
    obtain ⟨hc, ht⟩ : '\r' ≠ c ∧ '\r' ∉ t := by simpa using h
    rw [withReturns]
    split
    · exact .pair (ih ht)
    · exact .keep hc.symm (ih ht)

namespace Paired

variable {t u : Text}

/-- A text is paired if its rest is, and a carriage return in front has a line feed behind it. -/
theorem cons_iff {c : Char} : Paired (c :: t) ↔ (c = '\r' → t.head? = some '\n') ∧ Paired t := by
  constructor
  · intro h
    cases h with
    | keep hc h => exact ⟨fun hr => absurd hr hc, h⟩
    | pair h => exact ⟨fun _ => rfl, .keep (by decide) h⟩
  · rintro ⟨hhead, h⟩
    -- a return makes a pair with the feed behind it
    by_cases hc : c = '\r'
    · obtain ⟨u, rfl⟩ := List.head?_eq_some_iff.mp (hhead hc)
      cases h with
      | keep _ h => exact hc ▸ .pair h
    · exact .keep hc h

theorem append_right (h : Paired (t ++ u)) : Paired u := by
  induction t with
  | nil => exact h
  | cons c t ih => exact ih (cons_iff.mp h).2

theorem append (h : Paired t) (h' : Paired u) : Paired (t ++ u) := by
  induction h with
  | nil => exact h'
  | keep hc _ ih => exact .keep hc ih
  | pair _ ih => exact .pair ih

/-- A text may be cut anywhere but between the two characters of a line ending. -/
theorem append_left (h : Paired (t ++ u)) (hlast : t.getLast? ≠ some '\r') : Paired t := by
  induction t with
  | nil => exact .nil
  | cons c t ih =>
    obtain ⟨hhead, h⟩ := cons_iff.mp h
    cases t with
    | nil => exact .keep (by simpa using hlast) .nil
    -- the end of the text is still ahead
    | cons d t => exact cons_iff.mpr ⟨hhead, ih h (by rwa [List.getLast?_cons_cons] at hlast)⟩

/-- A carriage return is followed by a line feed. -/
theorem feed_of_return (h : Paired (t ++ u)) (hlast : t.getLast? = some '\r') :
    ∃ v, u = '\n' :: v := by
  obtain ⟨s, rfl⟩ : ∃ s, t = s ++ ['\r'] := by
    rcases List.eq_nil_or_concat' t with rfl | ⟨s, c, rfl⟩
    · simp at hlast
    · have hc : c = '\r' := by simpa using hlast
      exact ⟨s, by rw [hc]⟩
  rw [List.append_assoc] at h
  exact List.head?_eq_some_iff.mp ((cons_iff.mp h.append_right).1 rfl)

/-- In front of anything but a line feed, no carriage return stands. -/
theorem getLast?_ne (h : Paired (t ++ u)) (hhead : u.head? ≠ some '\n') :
    t.getLast? ≠ some '\r' := by
  intro hlast
  obtain ⟨v, rfl⟩ := h.feed_of_return hlast
  exact hhead rfl

end Paired

/-! ## Runs of a class -/

/-- A run of a class that holds carriage returns if it holds line feeds. -/
theorem takeWhile_plain {p : Char → Bool} (hp : p '\n' = true → p '\r' = true) {t : Text}
    (h : Paired t) : (plain t).takeWhile p = plain (t.takeWhile p) := by
  induction h with
  | nil => rfl
  | keep hc h ih =>
    rename_i c t
    rw [plain_cons hc, List.takeWhile_cons, List.takeWhile_cons]
    split
    · rw [plain_cons hc, ih]
    · rfl
  | pair h ih =>
    rw [plain_return, plain_feed, List.takeWhile_cons]
    -- the run goes on over both characters, stops between them, or stops before both
    by_cases hfeed : p '\n' = true
    · simp [hfeed, hp hfeed, ih]
    · by_cases hreturn : p '\r' = true <;> simp [hfeed, hreturn]

/-- What is left after such a run. -/
theorem dropWhile_plain {p : Char → Bool} (hp : p '\n' = true → p '\r' = true) {t : Text}
    (h : Paired t) : (plain t).dropWhile p = plain (t.dropWhile p) := by
  induction h with
  | nil => rfl
  | keep hc h ih =>
    rw [plain_cons hc, List.dropWhile_cons, List.dropWhile_cons]
    split
    · exact ih
    · rw [plain_cons hc]
  | pair h ih =>
    rw [plain_return, plain_feed, List.dropWhile_cons]
    -- if the feed is dropped, the return in front of it is too
    by_cases hfeed : p '\n' = true
    · simp [hfeed, hp hfeed, ih]
    · by_cases hreturn : p '\r' = true <;> simp [hfeed, hreturn]

/-- A class that carriage returns belong to does not stop at them, wherever they stand. -/
theorem takeWhile_plain_of_return {p : Char → Bool} (hp : p '\r' = true) (t : Text) :
    (plain t).takeWhile p = plain (t.takeWhile p) := by
  induction t with
  | nil => rfl
  | cons c t ih =>
    by_cases hc : c = '\r'
    · subst hc
      rw [plain_return, List.takeWhile_cons, if_pos hp, plain_return, ih]
    · rw [plain_cons hc, List.takeWhile_cons, List.takeWhile_cons]
      split
      · rw [plain_cons hc, ih]
      · rfl

/-- What is left after a run that does not stop at carriage returns. -/
theorem dropWhile_plain_of_return {p : Char → Bool} (hp : p '\r' = true) (t : Text) :
    (plain t).dropWhile p = plain (t.dropWhile p) := by
  induction t with
  | nil => rfl
  | cons c t ih =>
    by_cases hc : c = '\r'
    · subst hc
      rw [plain_return, List.dropWhile_cons, if_pos hp, ih]
    · rw [plain_cons hc, List.dropWhile_cons, List.dropWhile_cons]
      split
      · exact ih
      · rw [plain_cons hc]

/-- A text starts with a character of a class in both forms, if the class treats the two characters
of a line ending alike. -/
theorem head?_plain_any {p : Char → Bool} (hp : p '\n' = p '\r') {t : Text} (h : Paired t) :
    (plain t).head?.any p = t.head?.any p := by
  cases h with
  | nil => rfl
  | keep hc h => rw [plain_cons hc]; rfl
  | pair h => exact hp

/-- Carriage returns at both ends are trimmed, as blanks are. -/
theorem trim_plain (t : Text) : trim (plain t) = plain (trim t) := by
  have hreturn : isBlank '\r' = true := by decide
  rw [trim, trim, trimStart, trimStart, dropWhile_plain_of_return hreturn, trimEnd, trimEnd,
    ← plain_reverse, dropWhile_plain_of_return hreturn, ← plain_reverse]

/-- What is trimmed does not end in a blank. -/
theorem getLast?_trim_ne (t : Text) : (trim t).getLast? ≠ some '\r' := by
  intro h
  rw [trim, trimEnd, List.getLast?_reverse] at h
  have hnot := List.head?_dropWhile_not isBlank (trimStart t).reverse
  rw [h] at hnot
  exact absurd hnot (by decide)

/-! ## Words -/

/-- A word without line endings stands in front of both texts or of neither. -/
theorem isPrefixOf_plain {w : Text} (hfeed : '\n' ∉ w) (hreturn : '\r' ∉ w) {t : Text}
    (h : Paired t) : w.isPrefixOf (plain t) = w.isPrefixOf t := by
  induction h generalizing w with
  | nil => rfl
  | keep hc h ih =>
    rw [plain_cons hc]
    cases w with
    | nil => rfl
    | cons d w =>
      rw [List.isPrefixOf_cons_cons, List.isPrefixOf_cons_cons]
      -- the next characters are compared, and the rest by induction
      simp only [List.mem_cons, not_or] at hfeed hreturn
      rw [ih hfeed.2 hreturn.2]
  | pair h ih =>
    rw [plain_return, plain_feed]
    cases w with
    | nil => rfl
    | cons d w =>
      simp only [List.mem_cons, not_or] at hfeed hreturn
      rw [List.isPrefixOf_cons_cons, List.isPrefixOf_cons_cons, beq_false_of_ne (Ne.symm hfeed.1),
        beq_false_of_ne (Ne.symm hreturn.1)]
      rfl

/-- A word without line endings stands in both texts or in neither. -/
theorem contains_plain {w : Text} (hne : w ≠ []) (hfeed : '\n' ∉ w) (hreturn : '\r' ∉ w) {t : Text}
    (h : Paired t) : contains w (plain t) = contains w t := by
  induction h with
  | nil => rfl
  | keep hc h ih =>
    have hprefix := isPrefixOf_plain hfeed hreturn (Paired.keep hc h)
    rw [plain_cons hc] at hprefix ⊢
    rw [contains, contains, hprefix, ih]
  | pair h ih =>
    have hprefix := isPrefixOf_plain hfeed hreturn (Paired.keep (c := '\n') (by decide) h)
    -- no word starts at the carriage return
    have hnone : ∀ t : Text, w.isPrefixOf ('\r' :: t) = false := by
      intro t
      obtain ⟨d, v, rfl⟩ := List.exists_cons_of_ne_nil hne
      simp only [List.mem_cons, not_or] at hreturn
      rw [List.isPrefixOf_cons_cons, beq_false_of_ne (Ne.symm hreturn.1)]
      rfl
    rw [plain_feed] at hprefix
    rw [plain_return, plain_feed, contains, contains, contains, hnone, hprefix, ih]
    rfl

/-! ## Lines -/

/-- Only a carriage return at the end is dropped. -/
theorem dropReturn_cons {c : Char} (hc : c ≠ '\r') (p : Text) :
    dropReturn (c :: p) = c :: dropReturn p := by
  cases p with
  | nil => simp [dropReturn, hc]
  | cons d p =>
    rw [dropReturn, dropReturn, List.getLast?_cons_cons]
    split <;> rfl

/-- Pieces that differ in a carriage return at their end only, but for the last ones, which are the
same. -/
inductive SameLines : List Text → List Text → Prop where
  | last (p : Text) : SameLines [p] [p]
  | cons {p q : Text} {ps qs : List Text} (h : dropReturn p = dropReturn q)
      (hs : SameLines ps qs) : SameLines (p :: ps) (q :: qs)

/-- Pieces that are the same without their carriage returns are the same lines. -/
theorem SameLines.linesOfPieces_eq {ps qs : List Text} (h : SameLines ps qs) :
    linesOfPieces ps = linesOfPieces qs := by
  induction h with
  | last p => rfl
  | cons h hs ih =>
    cases hs with
    | last p => simp only [linesOfPieces, h]
    | cons h' hs' => simp only [linesOfPieces, h, ih]

/-- A character in front of the first line leaves the lines alike. -/
theorem SameLines.cons_char {c : Char} (hc : c ≠ '\r') {p q : Text} {ps qs : List Text}
    (h : SameLines (p :: ps) (q :: qs)) : SameLines ((c :: p) :: ps) ((c :: q) :: qs) := by
  cases h with
  | last p => exact .last _
  | cons h hs => exact .cons (by rw [dropReturn_cons hc, dropReturn_cons hc, h]) hs

/-- Leaving carriage returns out changes no line. -/
theorem sameLines_plain {t : Text} (h : Paired t) :
    SameLines (splitOn '\n' (plain t)) (splitOn '\n' t) := by
  induction h with
  | nil => exact .last _
  | keep hc h ih =>
    rename_i c t
    rw [plain_cons hc]
    by_cases hfeed : c = '\n'
    · subst hfeed
      rw [splitOn_cons_self, splitOn_cons_self]
      exact .cons rfl ih
    · obtain ⟨p, ps, hp⟩ := List.exists_cons_of_ne_nil (splitOn_ne_nil '\n' (plain t))
      obtain ⟨q, qs, hq⟩ := List.exists_cons_of_ne_nil (splitOn_ne_nil '\n' t)
      rw [hp, hq] at ih
      simp only [splitOn, if_neg hfeed, hp, hq]
      exact ih.cons_char hc
  | pair h ih =>
    -- a line of its own: the piece before the line feed is the carriage return alone
    rw [plain_return, plain_feed, splitOn_cons_self, splitOn, if_neg (by decide), splitOn_cons_self]
    exact .cons rfl ih

/-- The carriage returns of line endings belong to no line. -/
theorem lines_plain {t : Text} (h : Paired t) : lines (plain t) = lines t :=
  (sameLines_plain h).linesOfPieces_eq

/-! ## Offsets -/

/-- The offset in the plain text of an offset in the text. -/
def plainOffset (t : Text) (n : Nat) : Nat :=
  size (plain (takeBytes n t))

@[simp] theorem plainOffset_size (w t : Text) : plainOffset (w ++ t) (size w) = size (plain w) := by
  rw [plainOffset, takeBytes_size]

/-- The number of a line is the same in both texts. -/
theorem lineAt_plain (w t : Text) :
    lineAt (plain (w ++ t)) (plainOffset (w ++ t) (size w)) = lineAt (w ++ t) (size w) := by
  rw [plainOffset_size, plain_append, lineAt_size, lineAt_size, count_feed_plain]

/-- Offsets that no carriage return stands right in front of keep their order. -/
theorem plainOffset_lt_iff {t w v x y : Text} (hw : t = w ++ x) (hv : t = v ++ y)
    (hwlast : w.getLast? ≠ some '\r') (hvlast : v.getLast? ≠ some '\r') :
    plainOffset t (size w) < plainOffset t (size v) ↔ size w < size v := by
  -- the longer prefix has more to offer than carriage returns
  have hlonger : ∀ {a b : Text}, (a ++ b).getLast? ≠ some '\r' →
      (size (plain a) < size (plain (a ++ b)) ↔ size a < size (a ++ b)) ∧
      ¬ size (plain (a ++ b)) < size (plain a) ∧ ¬ size (a ++ b) < size a := by
    intro a b hlast
    rw [plain_append, size_append, size_append]
    refine ⟨?_, by omega, by omega⟩
    rcases List.eq_nil_or_concat' b with rfl | ⟨b, c, rfl⟩
    · simp
    · have hc : c ≠ '\r' := by simpa using hlast
      have hpos : 0 < c.utf8Size := c.utf8Size_pos
      rw [plain_append, plain_cons hc, size_append, size_append]
      simp only [plain_nil, size_cons, size_nil]
      omega
  have hwoffset : plainOffset t (size w) = size (plain w) := by rw [hw, plainOffset_size]
  have hvoffset : plainOffset t (size v) = size (plain v) := by rw [hv, plainOffset_size]
  rw [hwoffset, hvoffset]
  rcases List.prefix_or_prefix_of_prefix ⟨x, hw.symm⟩ ⟨y, hv.symm⟩ with ⟨b, rfl⟩ | ⟨b, rfl⟩
  · exact (hlonger hvlast).1
  · exact iff_of_false (hlonger hwlast).2.1 (hlonger hwlast).2.2

end NamingLint.Text
