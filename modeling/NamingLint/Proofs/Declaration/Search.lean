import Mathlib.Data.List.Pairwise
import NamingLint.Proofs.Declaration.Occurrence

/-!
# NamingLint — what a search finds and what it passes over

A search takes the leftmost match and goes on behind it. So a match at some place of a text is found,
unless a match found before it reaches over that place. Whether a place is lost is then a question
about one shape: can a match of it hold the start of another?

* `Shape.FindsAt` — the search finds a match at a place.
* `Occurrence.Takes` — a match starts before a place and ends after it.

Main results:

* `mem_occurrences_or_takes` — a match is found, or its place is taken.
* `pairwise_occurrences` — what is found stands one after another.
* `findsAt_iff` — so it is never both.
* `Occurrence.Takes.exists_cut` — the two parts of a match that takes a place.
-/

namespace NamingLint

open Text

variable {s : Shape}

/-- The search in `t` finds a match at the place behind `pre`. -/
def Shape.FindsAt (s : Shape) (t pre : Text) : Prop :=
  ∃ o ∈ occurrences s t, o.start = size pre

/-- The match starts before the place behind `pre` and ends after it. -/
def Occurrence.Takes (o : Occurrence) (pre : Text) : Prop :=
  o.start < size pre ∧ size pre < o.stop

/-! ## Completeness -/

/-- A longer prefix of a text is larger. -/
theorem size_lt_of_length_lt {a b t : Text} (ha : a <+: t) (hb : b <+: t)
    (h : a.length < b.length) : size a < size b := by
  obtain ⟨x, rfl⟩ := List.prefix_of_prefix_length_le ha hb (Nat.le_of_lt h)
  cases x with
  | nil => simp at h
  | cons c x =>
    have hpos : 0 < c.utf8Size := c.utf8Size_pos
    rw [size_append, size_cons]
    omega

/-- The search has `pre` behind it and passes over at most `mid`, so it comes to the place in front of
`c`, unless a match takes it on the way. -/
theorem mem_occurrencesFrom_or_takes (pre mid : Text) {skip : Nat} (hskip : skip ≤ mid.length)
    {c : Char} {r : Text} {m : Match} (hfind : s.find (pre ++ mid).getLast? (c :: r) = some m) :
    ⟨size (pre ++ mid), m⟩ ∈ occurrencesFrom s skip pre.getLast? (size pre) (mid ++ c :: r) ∨
      ∃ o ∈ occurrencesFrom s skip pre.getLast? (size pre) (mid ++ c :: r), o.Takes (pre ++ mid) := by
  induction mid generalizing pre skip with
  | nil =>
    obtain rfl : skip = 0 := by simpa using hskip
    rw [List.append_nil] at hfind
    left
    rw [List.nil_append, List.append_nil, occurrencesFrom, hfind]
    exact List.mem_cons_self
  | cons d mid ih =>
    -- one character on, the search has `pre ++ [d]` behind it
    have hnext : ∀ {n : Nat}, n ≤ mid.length →
        ⟨size (pre ++ d :: mid), m⟩ ∈
            occurrencesFrom s n (some d) (size pre + d.utf8Size) (mid ++ c :: r) ∨
          ∃ o ∈ occurrencesFrom s n (some d) (size pre + d.utf8Size) (mid ++ c :: r),
            o.Takes (pre ++ d :: mid) := by
      intro n hn
      have h := ih (pre ++ [d]) hn (by simpa using hfind)
      simpa using h
    rw [List.cons_append]
    cases skip with
    | succ skip =>
      rw [occurrencesFrom]
      exact hnext (Nat.le_of_succ_le_succ hskip)
    | zero =>
      rw [occurrencesFrom]
      split
      · exact hnext (Nat.zero_le _)
      · rename_i m' hm'
        by_cases hlength : m'.text.length - 1 ≤ mid.length
        · -- the match ends before the place, and the search goes on
          rcases hnext hlength with hmem | ⟨o, ho, htakes⟩
          · exact .inl (List.mem_cons_of_mem _ hmem)
          · exact .inr ⟨o, List.mem_cons_of_mem _ ho, htakes⟩
        · -- the match is longer than what stands before the place
          refine .inr ⟨⟨size pre, m'⟩, List.mem_cons_self, ?_, ?_⟩
          · have hpos : 0 < d.utf8Size := d.utf8Size_pos
            simp only [size_append, size_cons]
            omega
          · have hlt : size (d :: mid) < size m'.text :=
              size_lt_of_length_lt (List.prefix_append (d :: mid) (c :: r)) (s.isPrefix hm')
                (by simp only [List.length_cons]; omega)
            rw [Occurrence.stop, size_append]
            dsimp only
            omega

/-- A match of the shape is found, unless one that was found before it takes its place. -/
theorem mem_occurrences_or_takes {pre r : Text} {m : Match} (hfind : s.find pre.getLast? r = some m)
    (hr : r ≠ []) :
    ⟨size pre, m⟩ ∈ occurrences s (pre ++ r) ∨ ∃ o ∈ occurrences s (pre ++ r), o.Takes pre := by
  obtain ⟨c, r, rfl⟩ := List.exists_cons_of_ne_nil hr
  have h := mem_occurrencesFrom_or_takes [] pre (Nat.zero_le _) hfind
  simpa [occurrences] using h

/-! ## Order -/

theorem le_start_of_mem_occurrencesFrom {skip offset : Nat} {previous : Option Char} {t : Text}
    {o : Occurrence} (h : o ∈ occurrencesFrom s skip previous offset t) :
    offset + size (t.take skip) ≤ o.start := by
  induction t generalizing skip previous offset with
  | nil => simp [occurrencesFrom] at h
  | cons c t ih =>
    -- inside of the last match nothing is found
    cases skip with
    | succ skip =>
      have hle := ih h
      rw [List.take_succ_cons, size_cons]
      omega
    | zero =>
      rw [List.take_zero, size_nil]
      rw [occurrencesFrom] at h
      split at h
      · have hle := ih h
        omega
      · rcases List.mem_cons.mp h with rfl | h
        · exact Nat.le_refl _
        · have hle := ih h
          omega

theorem pairwise_occurrencesFrom (skip offset : Nat) (previous : Option Char) (t : Text) :
    (occurrencesFrom s skip previous offset t).Pairwise fun o o' => o.stop ≤ o'.start := by
  induction t generalizing skip previous offset with
  | nil => simp [occurrencesFrom]
  | cons c t ih =>
    cases skip with
    | succ skip => exact ih ..
    | zero =>
      rw [occurrencesFrom]
      split
      · exact ih ..
      · rename_i m hm
        refine List.pairwise_cons.mpr ⟨?_, ih ..⟩
        intro o ho
        have hle := le_start_of_mem_occurrencesFrom ho
        -- the characters that are passed over are those of the match behind its first one
        have htext : size m.text ≤ c.utf8Size + size (t.take (m.text.length - 1)) := by
          have hprefix := List.prefix_iff_eq_take.mp (s.isPrefix hm)
          cases htext : m.text with
          | nil => simp
          | cons d a =>
            rw [htext, List.length_cons, List.take_succ_cons, List.cons.injEq] at hprefix
            obtain ⟨rfl, ha⟩ := hprefix
            rw [size_cons, List.length_cons, Nat.add_sub_cancel, ← ha]
        rw [Occurrence.stop]
        dsimp only
        omega

/-- Every match that is found ends before the next one starts. -/
theorem pairwise_occurrences (s : Shape) (t : Text) :
    (occurrences s t).Pairwise fun o o' => o.stop ≤ o'.start :=
  pairwise_occurrencesFrom 0 0 none t

/-- Of two matches that are found, one ends before the other starts. -/
theorem apart_of_mem_occurrences {t : Text} {o o' : Occurrence} (ho : o ∈ occurrences s t)
    (ho' : o' ∈ occurrences s t) (hne : o ≠ o') : o.stop ≤ o'.start ∨ o'.stop ≤ o.start := by
  let Apart (o o' : Occurrence) : Prop := o.stop ≤ o'.start ∨ o'.stop ≤ o.start
  have hsymm : Std.Symm Apart := ⟨fun _ _ h => h.symm⟩
  have hapart : (occurrences s t).Pairwise Apart := (pairwise_occurrences s t).imp Or.inl
  exact hapart.forall ho ho' hne

/-! ## Places that are taken -/

/-- Nothing is found at a place that is taken. -/
theorem Occurrence.Takes.not_findsAt {o : Occurrence} {pre t : Text} (h : o.Takes pre)
    (ho : o ∈ occurrences s t) : ¬ s.FindsAt t pre := by
  rintro ⟨o', ho', hstart'⟩
  obtain ⟨hstart, hstop⟩ := h
  have hne : o ≠ o' := by
    rintro rfl
    omega
  have hle : o'.start ≤ o'.stop := Nat.le_add_right _ _
  -- whichever of the two comes first, the other starts behind its end
  rcases apart_of_mem_occurrences ho ho' hne with h | h
  · omega
  · omega

section Place

variable {pre r : Text} {m : Match} (hfind : s.find pre.getLast? r = some m) (hr : r ≠ [])
include hfind hr

/-- A match is found exactly where no other one takes its place. -/
theorem findsAt_iff :
    s.FindsAt (pre ++ r) pre ↔ ¬ ∃ o ∈ occurrences s (pre ++ r), o.Takes pre := by
  constructor
  · rintro h ⟨o, ho, htakes⟩
    exact htakes.not_findsAt ho h
  · intro h
    exact ⟨_, (mem_occurrences_or_takes hfind hr).resolve_right h, rfl⟩

/-- What is found at a place is the match there. -/
theorem mem_of_findsAt (h : s.FindsAt (pre ++ r) pre) : ⟨size pre, m⟩ ∈ occurrences s (pre ++ r) :=
  (mem_occurrences_or_takes hfind hr).resolve_right ((findsAt_iff hfind hr).mp h)

end Place

/-- A match that goes on behind a place takes it. -/
theorem Occurrence.takes_append {o : Occurrence} {before x y : Text} (hx : x ≠ []) (hy : y ≠ [])
    (hstart : o.start = size before) (htext : o.found.text = x ++ y) : o.Takes (before ++ x) := by
  obtain ⟨c, x, rfl⟩ := List.exists_cons_of_ne_nil hx
  obtain ⟨d, y, rfl⟩ := List.exists_cons_of_ne_nil hy
  have hc : 0 < c.utf8Size := c.utf8Size_pos
  have hd : 0 < d.utf8Size := d.utf8Size_pos
  rw [Takes, stop, htext, hstart]
  simp only [size_append, size_cons]
  omega

/-- A match that takes a place is cut there into a part before it and a part behind it. -/
theorem Occurrence.Takes.exists_cut {o : Occurrence} {pre r : Text} (h : o.Takes pre)
    (ho : o ∈ occurrences s (pre ++ r)) :
    ∃ before x y after, pre = before ++ x ∧ r = y ++ after ∧ x ≠ [] ∧ y ≠ [] ∧
      o.start = size before ∧ o.found.text = x ++ y ∧
      s.find before.getLast? (x ++ r) = some o.found := by
  obtain ⟨hstart, hstop⟩ := h
  obtain ⟨before, post, ht, hbefore, hfind⟩ := exists_of_mem_occurrences ho
  rw [Occurrence.stop] at hstop
  -- the match starts inside of `pre`
  rcases List.append_eq_append_iff.mp ht with ⟨a, rfl, -⟩ | ⟨x, rfl, hx⟩
  · rw [hbefore, size_append] at hstart
    omega
  -- and ends behind it
  rcases List.append_eq_append_iff.mp hx with ⟨y, rfl, hy⟩ | ⟨y, htext, hr⟩
  · rw [hbefore] at hstop
    simp only [size_append] at hstop
    omega
  refine ⟨before, x, y, post, rfl, hr, ?_, ?_, hbefore, htext, ?_⟩
  · rintro rfl
    rw [hbefore, List.append_nil] at hstart
    omega
  · rintro rfl
    rw [htext, hbefore, List.append_nil, size_append] at hstop
    omega
  · rwa [← hx]

end NamingLint
