import Mathlib.Data.List.Chain
import NamingLint.Proofs.Declaration.Parameter
import NamingLint.Proofs.Text.Cut

/-!
# NamingLint — splitting a list loses nothing

A list is cut at the commas that stand outside brackets, also if its brackets do not match. The
depth is then no count of brackets, since it never falls below zero; it is told here by a rule for
the last character of a text. A comma is cut at if and only if the depth before it is zero, and the
segments with their commas make up the list again.

* `bracketDepth` — the depth behind a text.
* `depthFrom` — the depth that the pass over the list has when it comes to a place.
* `SplitsAt` — one segment ends at a byte and the next one starts behind it.

Main results:

* `bracketDepth_eq` — the pass counts the depth.
* `splitsAt_iff` — a comma is cut at exactly where the depth is zero.
* `segments_lose_nothing` — the segments of any list.
-/

namespace NamingLint

open Text

/-! ## Depth -/

/-- Bracket depth behind a text that is given backwards. An opening bracket raises the depth; a
closing one lowers it, but not below zero; the angle bracket of an arrow is none of them. -/
def depthBehind : Text → Nat
  | [] => 0
  | c :: before =>
    if c ∈ ['(', '[', '\x7b', '<'] then depthBehind before + 1
    else if c ∈ [')', ']', '\x7d'] ∨ (c = '>' ∧ before.head? ≠ some '=') then depthBehind before - 1
    else depthBehind before

/-- Bracket depth behind a text. -/
def bracketDepth (t : Text) : Nat :=
  depthBehind t.reverse

/-- The depth after a text, from a depth and the character before the text on. -/
def depthFrom (depth : Nat) (previous : Option Char) : Text → Nat
  | [] => depth
  | c :: t => depthFrom (depthAfter depth previous c) (some c) t

/-- The last character is counted from the depth that all before it leave. -/
theorem depthFrom_concat (depth : Nat) (previous : Option Char) (t : Text) (c : Char) :
    depthFrom depth previous (t ++ [c]) =
      depthAfter (depthFrom depth previous t) (t.getLast?.or previous) c := by
  induction t generalizing depth previous with
  | nil => rfl
  | cons d t ih =>
    -- the character in front of the last is that of the rest, if it has one
    have hlast : (d :: t).getLast?.or previous = t.getLast?.or (some d) := by
      rw [List.getLast?_cons]
      cases t.getLast? <;> rfl
    rw [List.cons_append, depthFrom, ih, depthFrom, hlast]

/-- The rule of one step, told as in `depthBehind`. -/
theorem depthAfter_eq (depth : Nat) (previous : Option Char) (c : Char) :
    depthAfter depth previous c =
      if c ∈ ['(', '[', '\x7b', '<'] then depth + 1
      else if c ∈ [')', ']', '\x7d'] ∨ (c = '>' ∧ previous ≠ some '=') then depth - 1
      else depth := by
  unfold depthAfter
  by_cases hopen : c ∈ ['(', '[', '\x7b', '<']
  · rw [if_pos hopen, if_pos (by simpa using hopen)]
  · rw [if_neg hopen, if_neg (by simpa using hopen)]
    -- the angle bracket is the one character whose part depends on what stands before it
    by_cases hangle : c = '>'
    · subst hangle
      by_cases harrow : previous = some '='
      · simp [harrow]
      · simp [harrow]
    · simp [hangle]

/-- Read from its end, a text has the depth it has read from its start. -/
theorem depthBehind_eq (r : Text) : depthBehind r = depthFrom 0 none r.reverse := by
  induction r with
  | nil => rfl
  | cons c r ih =>
    rw [List.reverse_cons, depthFrom_concat, ← ih, depthAfter_eq, List.getLast?_reverse,
      Option.or_none, depthBehind]

/-- The pass over a list counts the depth. -/
theorem bracketDepth_eq (t : Text) : bracketDepth t = depthFrom 0 none t := by
  rw [bracketDepth, depthBehind_eq, List.reverse_reverse]

/-! ## Cuts -/

theorem depthAfter_comma (depth : Nat) (previous : Option Char) :
    depthAfter depth previous ',' = depth := by
  simp [depthAfter_eq]

/-- A comma of depth zero is cut at. -/
theorem cutAtCommas_append_comma {depth : Nat} {previous : Option Char} {before : Text}
    (h : depthFrom depth previous before = 0) (after : Text) :
    cutAtCommas depth previous (before ++ ',' :: after) =
      cutAtCommas depth previous before ++ cutAtCommas 0 (some ',') after := by
  induction before generalizing depth previous with
  | nil =>
    obtain rfl : depth = 0 := h
    simp [cutAtCommas]
  | cons c before ih =>
    have hrest := ih h
    -- a cut at `c` starts a new part, else `c` joins the first one
    by_cases hc : c = ',' ∧ depth = 0
    · obtain ⟨rfl, rfl⟩ := hc
      rw [depthAfter_comma] at hrest
      rw [List.cons_append, cutAtCommas, if_pos ⟨rfl, rfl⟩, hrest, cutAtCommas, if_pos ⟨rfl, rfl⟩]
      rfl
    · obtain ⟨p, ps, hp, hcons⟩ := cutAtCommas_cons hc previous before
      rw [hp, List.cons_append] at hrest
      rw [List.cons_append, cutAtCommas, if_neg hc, hrest, hcons, List.cons_append]

/-- Between two parts the depth is zero. -/
theorem depthFrom_of_cutAtCommas {depth : Nat} {previous : Option Char} {t : Text}
    {ps qs : List Text} (h : cutAtCommas depth previous t = ps ++ qs) (hps : ps ≠ [])
    (hqs : qs ≠ []) : depthFrom depth previous ([','].intercalate ps) = 0 := by
  induction t generalizing depth previous ps with
  | nil =>
    -- there is one part only
    obtain ⟨p, ps, rfl⟩ := List.exists_cons_of_ne_nil hps
    obtain ⟨q, qs, rfl⟩ := List.exists_cons_of_ne_nil hqs
    simp [cutAtCommas] at h
  | cons c t ih =>
    obtain ⟨p, ps, rfl⟩ := List.exists_cons_of_ne_nil hps
    by_cases hc : c = ',' ∧ depth = 0
    · obtain ⟨rfl, rfl⟩ := hc
      rw [cutAtCommas, if_pos ⟨rfl, rfl⟩, List.cons_append, List.cons.injEq] at h
      obtain ⟨rfl, hrest⟩ := h
      by_cases hmore : ps = []
      · rw [hmore, List.intercalate_singleton]
        rfl
      · have hzero := ih hrest hmore
        rw [List.intercalate_cons_of_ne_nil hmore, List.nil_append, List.singleton_append, depthFrom,
          depthAfter_comma]
        exact hzero
    · obtain ⟨q, ps', hq, hcons⟩ := cutAtCommas_cons hc previous t
      rw [hcons, List.cons_append, List.cons.injEq] at h
      obtain ⟨rfl, rfl⟩ := h
      rw [List.intercalate_cons_cons_left, depthFrom]
      exact ih hq (List.cons_ne_nil q ps)

/-! ## Offsets -/

/-- Offsets leave the texts as they are. -/
@[simp] theorem map_text_withStarts (start : Nat) (ps : List Text) :
    (withStarts start ps).map Segment.text = ps := by
  induction ps generalizing start with
  | nil => rfl
  | cons p ps ih => rw [withStarts, List.map_cons, ih]

/-- Each part starts behind the one before it and a comma. -/
theorem isChain_withStarts (start : Nat) (ps : List Text) :
    (withStarts start ps).IsChain fun s r => r.start = s.start + size s.text + 1 := by
  induction ps generalizing start with
  | nil => exact .nil
  | cons p ps ih =>
    cases ps with
    | nil => exact .singleton _
    | cons q qs => exact .cons_cons rfl (ih _)

theorem size_intercalate_cons (p : Text) {ps : List Text} (h : ps ≠ []) :
    size ([','].intercalate (p :: ps)) = size p + 1 + size ([','].intercalate ps) := by
  have hcomma : ','.utf8Size = 1 := rfl
  rw [List.intercalate_cons_of_ne_nil h, size_append, size_append, size_cons, size_nil, hcomma]

/-- The parts behind others start behind a comma. -/
theorem withStarts_append (start : Nat) {ps : List Text} (h : ps ≠ []) (qs : List Text) :
    withStarts start (ps ++ qs) =
      withStarts start ps ++ withStarts (start + size ([','].intercalate ps) + 1) qs := by
  induction ps generalizing start with
  | nil => exact absurd rfl h
  | cons p ps ih =>
    rw [List.cons_append, withStarts, withStarts, List.cons_append]
    by_cases hps : ps = []
    · -- the first of the others starts right behind `p`
      rw [hps, List.nil_append, List.intercalate_singleton]
      rfl
    · rw [ih _ hps, size_intercalate_cons p hps]
      congr 3
      omega

/-- A part ends where it and the parts before it, with their commas, end. -/
theorem stop_of_withStarts {start : Nat} {ps : List Text} {ss rs : List Segment} {s : Segment}
    (h : withStarts start ps = ss ++ s :: rs) :
    s.start + size s.text = start + size ([','].intercalate ((ss ++ [s]).map Segment.text)) := by
  induction ss generalizing start ps with
  | nil =>
    cases ps with
    | nil => cases h
    | cons p ps =>
      rw [withStarts, List.nil_append, List.cons.injEq] at h
      obtain ⟨rfl, -⟩ := h
      rw [List.nil_append, List.map_singleton, List.intercalate_singleton]
  | cons r ss ih =>
    cases ps with
    | nil => cases h
    | cons p ps =>
      rw [withStarts, List.cons_append, List.cons.injEq] at h
      obtain ⟨rfl, hrest⟩ := h
      -- `s` is among the later ones, so a comma counts
      have hne : (ss ++ [s]).map Segment.text ≠ [] := by simp
      rw [ih hrest, List.cons_append, List.map_cons, size_intercalate_cons p hne]
      omega

/-- Two lists of parts are joined by a comma too. -/
theorem intercalate_append {ps qs : List Text} (hps : ps ≠ []) (hqs : qs ≠ []) :
    [','].intercalate (ps ++ qs) = [','].intercalate ps ++ ',' :: [','].intercalate qs := by
  induction ps with
  | nil => exact absurd rfl hps
  | cons p ps ih =>
    by_cases hmore : ps = []
    · rw [hmore, List.singleton_append, List.intercalate_cons_of_ne_nil hqs,
        List.intercalate_singleton, List.append_assoc, List.singleton_append]
    · rw [List.cons_append, List.intercalate_cons_of_ne_nil (by simp [hmore]), ih hmore,
        List.intercalate_cons_of_ne_nil hmore, List.append_assoc _ _ (',' :: _)]

/-! ## Splits -/

/-- One segment ends at the byte, and the next one starts behind it. -/
def SplitsAt (list : Text) (n : Nat) : Prop :=
  ∃ ss s r rs, segments list = ss ++ s :: r :: rs ∧ n = s.start + size s.text

/-- A comma outside of all brackets ends a segment. -/
theorem splitsAt_of_depth {before after : Text} (h : bracketDepth before = 0) :
    SplitsAt (before ++ ',' :: after) (size before) := by
  have hcut := cutAtCommas_append_comma (bracketDepth_eq before ▸ h) after
  have hne := cutAtCommas_ne_nil 0 none before
  obtain ⟨q, qs, hq⟩ := List.exists_cons_of_ne_nil (cutAtCommas_ne_nil 0 (some ',') after)
  -- the last part before the comma is the segment that ends there
  have hlast : withStarts 0 (cutAtCommas 0 none before) ≠ [] := by
    intro hnil
    rw [← map_text_withStarts 0 (cutAtCommas 0 none before), hnil] at hne
    exact hne rfl
  obtain ⟨ss, s, hss⟩ : ∃ ss s, withStarts 0 (cutAtCommas 0 none before) = ss ++ [s] :=
    ⟨_, _, (List.dropLast_append_getLast hlast).symm⟩
  have hend := stop_of_withStarts hss
  rw [← hss, map_text_withStarts, intercalate_cutAtCommas, Nat.zero_add] at hend
  refine ⟨ss, s, ⟨size before + 1, q⟩, withStarts (size before + 1 + size q + 1) qs, ?_, hend.symm⟩
  rw [segments, hcut, withStarts_append 0 hne, hss, hq, intercalate_cutAtCommas, Nat.zero_add,
    withStarts, List.append_assoc]
  rfl

/-- A segment ends at no comma inside of brackets. -/
theorem depth_of_splitsAt {before after : Text}
    (h : SplitsAt (before ++ ',' :: after) (size before)) : bracketDepth before = 0 := by
  obtain ⟨ss, s, r, rs, hsegments, hend⟩ := h
  rw [stop_of_withStarts hsegments, Nat.zero_add] at hend
  have hcut : cutAtCommas 0 none (before ++ ',' :: after) =
      (ss ++ [s]).map Segment.text ++ (r :: rs).map Segment.text := by
    rw [← map_text_withStarts 0 (cutAtCommas 0 none _), ← segments, hsegments]
    simp
  have hfirst : (ss ++ [s]).map Segment.text ≠ [] := by simp
  have hsecond : (r :: rs).map Segment.text ≠ [] := by simp
  -- both texts are what stands in front of the byte
  have htext := intercalate_cutAtCommas 0 none (before ++ ',' :: after)
  rw [hcut, intercalate_append hfirst hsecond] at htext
  obtain ⟨hbefore, -⟩ := append_inj_of_size htext hend.symm
  rw [bracketDepth_eq, ← hbefore]
  exact depthFrom_of_cutAtCommas hcut hfirst hsecond

/-- The text is cut at the commas outside of brackets, and at no others. -/
theorem splitsAt_iff {before after : Text} :
    SplitsAt (before ++ ',' :: after) (size before) ↔ bracketDepth before = 0 :=
  ⟨depth_of_splitsAt, splitsAt_of_depth⟩

/-- Splitting loses nothing, whether or not the brackets of a list match. There is a first segment,
at the start of the list. The segments with commas between them make up the list; each one is what
is cut out of the list at its offset; each one starts behind the one before it and a comma. And a
comma of the list is cut at if and only if the bracket depth of the text before it is zero. -/
theorem segments_lose_nothing (list : Text) :
    ((segments list).head?.map Segment.start = some 0) ∧
    ([','].intercalate ((segments list).map Segment.text) = list) ∧
    (∀ s ∈ segments list, list.slice? ⟨s.start, s.start + size s.text⟩ = some s.text) ∧
    ((segments list).IsChain fun s r => r.start = s.start + size s.text + 1) ∧
    (∀ before after, list = before ++ ',' :: after →
      (SplitsAt list (size before) ↔ bracketDepth before = 0)) := by
  refine ⟨?_, ?_, ?_, isChain_withStarts 0 _, ?_⟩
  · obtain ⟨p, ps, hp⟩ := List.exists_cons_of_ne_nil (cutAtCommas_ne_nil 0 none list)
    rw [segments, hp]
    rfl
  · rw [segments, map_text_withStarts, intercalate_cutAtCommas]
  · intro s hs
    obtain ⟨a, b, hlist, hstart, -⟩ := exists_of_mem_segments hs
    exact slice?_eq_some_iff.mpr ⟨a, b, by rw [hlist, List.append_assoc], by rw [hstart]⟩
  · rintro before after rfl
    exact splitsAt_iff

/-- A list with a character of two bytes, an angle bracket that closes nothing, an arrow, and a
bracket that is never closed. -/
theorem unmatched_brackets_lose_nothing :
    segments "é>, b=>c, (d, e".toList =
        [⟨0, "é>".toList⟩, ⟨4, " b=>c".toList⟩, ⟨10, " (d, e".toList⟩] ∧
      slice? "é>, b=>c, (d, e".toList ⟨4, 9⟩ = some " b=>c".toList ∧
      SplitsAt "é>, b=>c, (d, e".toList 9 ∧ ¬ SplitsAt "é>, b=>c, (d, e".toList 13 := by
  have hsegments : segments "é>, b=>c, (d, e".toList =
      [⟨0, "é>".toList⟩, ⟨4, " b=>c".toList⟩, ⟨10, " (d, e".toList⟩] := by decide
  obtain ⟨-, -, hslices, -, hsplits⟩ := segments_lose_nothing "é>, b=>c, (d, e".toList
  refine ⟨hsegments, ?_, ?_, ?_⟩
  · exact hslices ⟨4, " b=>c".toList⟩ (by rw [hsegments]; decide)
  · exact (hsplits "é>, b=>c".toList " (d, e".toList (by decide)).mpr (by decide)
  · intro hsplit
    exact absurd ((hsplits "é>, b=>c, (d".toList " e".toList (by decide)).mp hsplit) (by decide)

end NamingLint
