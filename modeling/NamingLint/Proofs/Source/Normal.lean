import NamingLint.Proofs.Source.Enclosure

/-!
# NamingLint — stripped texts are normal

Stripping brings characters together that were apart. It never makes a comment or a body of what it
leaves. A slash that stays is followed in the stripped text by what follows it in the source, since
only the characters after another slash or a star would go; and each quote that stays is read again
as what it was, since its literal ends at the same place. The one exception is a line feed behind a
backslash: it stays without the backslash, and now ends the literal.

* `State.stripped` — where the pass over the stripped text is while the pass over the source is in a
  state.
* `settled` — the marks of the stripped text, told by the marks of the source.
* `IsNormal` — a text without comments, and with nothing but line feeds in its literals.

Main results:

* `mark_kept` — the two passes side by side: a character that stays keeps its region, but for line
  feeds of comments, which are code now.
* `strip_is_normal` — so a stripped text is normal, and stripping it again changes nothing.
-/

namespace NamingLint.Source

open Text

/-! ## Marks of the stripped text -/

/-- What the pass over the stripped text is inside of while the pass over the source is inside of
`s`. There are no comments any more. -/
def State.stripped : State → State
  | .lineComment => .code
  | .blockComment => .code
  | s => s

/-- A kept character with its region in the stripped text: what is left of a comment is code. -/
def resettle (m : Char × Region) : Char × Region :=
  if m.2 = .comment then (m.1, .code) else m

/-- The marks of the stripped text. -/
def settled (ms : List (Char × Region)) : List (Char × Region) :=
  (ms.filter isKept).map resettle

theorem settled_code (c : Char) (ms : List (Char × Region)) :
    settled ((c, .code) :: ms) = (c, .code) :: settled ms := rfl

theorem settled_quote (c : Char) (ms : List (Char × Region)) :
    settled ((c, .quote) :: ms) = (c, .quote) :: settled ms := rfl

theorem settled_comment_feed (ms : List (Char × Region)) :
    settled (('\n', .comment) :: ms) = ('\n', .code) :: settled ms := rfl

theorem settled_literal_feed (ms : List (Char × Region)) :
    settled (('\n', .literal) :: ms) = ('\n', .literal) :: settled ms := rfl

theorem settled_dropped {m : Char × Region} (hm : isKept m = false) (ms : List (Char × Region)) :
    settled (m :: ms) = settled ms := by
  rw [settled, List.filter_cons_of_neg (by simp [hm]), settled]

/-- Stripped or not, the marks leave the same characters. -/
theorem kept_settled (ms : List (Char × Region)) : kept (settled ms) = kept ms := by
  -- all of it was kept before, and turning comments to code keeps more
  have hkept : ∀ m ∈ settled ms, isKept m = true := by
    intro m hm
    obtain ⟨n, hn, rfl⟩ := List.mem_map.mp hm
    have hn := (List.mem_filter.mp hn).2
    rw [resettle]
    split
    · rfl
    · exact hn
  rw [kept, List.filter_eq_self.mpr hkept, settled, List.map_map, kept]
  congr 1
  funext m
  simp only [Function.comp_apply, resettle]
  split <;> rfl

/-! ## The two passes -/

/-- If a slash does not open a comment in the source, it opens none in the stripped text: the next
character stays. -/
theorem continuesComment_strip {t : Text} (h : continuesComment t = false) :
    continuesComment (strip t) = false := by
  cases t with
  | nil => rfl
  | cons c t =>
    rcases code_or_opener c t with ⟨hquote, hslash⟩ | ⟨e, u, hopen⟩
    · rw [strip_code hquote hslash]
      exact h
    · rw [hopen] at h ⊢
      -- a text that starts with a literal starts with its quote still
      cases e with
      | lineComment => cases h
      | blockComment => cases h
      | literal q hq =>
        rw [Enclosure.opener, List.singleton_append, strip_eq_kept, mark_quote hq, kept_quote]
        exact h

/-- A character that is dropped is met by the first pass only. -/
theorem mark_kept_dropped {s : State} {m : Char × Region} {ms : List (Char × Region)}
    (hm : isKept m = false) (h : mark s (kept ms) = settled ms) :
    mark s (kept (m :: ms)) = settled (m :: ms) := by
  rw [kept_cons_of_neg (by simp [hm]), settled_dropped hm, h]

/-- The pass over what is left finds what the pass over the source found, less what was dropped. -/
theorem mark_kept {s : State} {t : Text} (hfeed : contains ['\\', '\n'] t = false) :
    mark s.stripped (kept (mark s t)) = settled (mark s t) := by
  -- along the steps of the first pass; the second is in the stripped state at each of them
  fun_induction mark s t with
  | case1 s => cases s <;> rfl
  | case2 t ih =>
    have ih := ih (contains_of_cons (contains_of_cons hfeed))
    exact mark_kept_dropped rfl (mark_kept_dropped rfl ih)
  | case3 t ih =>
    have ih := ih (contains_of_cons (contains_of_cons hfeed))
    exact mark_kept_dropped rfl (mark_kept_dropped rfl ih)
  | case4 q t _ _ hquote ih =>
    rw [kept_quote, settled_quote, ← ih (contains_of_cons hfeed)]
    exact mark_quote hquote _
  | case5 c t hline hblock hquote ih =>
    have hquote : isQuote c = false := by simpa using hquote
    have hslash : c = '/' → continuesComment (strip t) = false := fun hc =>
      continuesComment_strip
        (continuesComment_eq_false (fun v => hline v hc) (fun v => hblock v hc))
    rw [kept_code, settled_code, ← ih (contains_of_cons hfeed)]
    exact mark_code hquote hslash
  | case6 t ih =>
    rw [kept_code, settled_code, ← ih (contains_of_cons hfeed)]
    exact mark_code_feed _
  | case7 c t hc ih =>
    exact mark_kept_dropped (by simp [isKept, hc]) (ih (contains_of_cons hfeed))
  | case8 t ih =>
    have ih := ih (contains_of_cons (contains_of_cons hfeed))
    exact mark_kept_dropped rfl (mark_kept_dropped rfl ih)
  | case9 c t _ ih =>
    have ih := ih (contains_of_cons hfeed)
    by_cases hc : c = '\n'
    · subst hc
      rw [kept_cons_of_pos rfl, settled_comment_feed, ← ih]
      exact mark_code_feed _
    · exact mark_kept_dropped (by simp [isKept, hc]) ih
  | case10 q c t ih =>
    have ih := ih (contains_of_cons (contains_of_cons hfeed))
    -- here a line feed would stay without its backslash
    have hc : c ≠ '\n' := by
      rintro rfl
      cases hfeed
    exact mark_kept_dropped rfl (mark_kept_dropped (by simp [isKept, hc]) ih)
  | case11 q t _ ih => exact mark_kept_dropped rfl (ih (contains_of_cons hfeed))
  | case12 q t _ hback ih =>
    rw [kept_quote, settled_quote, ← ih (contains_of_cons hfeed)]
    exact mark_literal_quote hback _
  | case13 q c t _ _ hne hends ih =>
    obtain ⟨rfl, hends⟩ := hends
    rw [kept_code, settled_code, ← ih (contains_of_cons hfeed)]
    exact mark_literal_lineEnd hne hends _
  | case14 q c t _ hback hne hends ih =>
    have ih := ih (contains_of_cons hfeed)
    by_cases hc : c = '\n'
    · -- the line feeds of a template stay in it
      subst hc
      have hends : endsAtFeed q = false := by simpa using hends
      rw [kept_cons_of_pos rfl, settled_literal_feed, ← ih]
      exact mark_literal_plain hback hne (fun _ => hends) _
    · exact mark_kept_dropped (by simp [isKept, hc]) ih

/-- Stripped text is marked as what was kept of it was, with comments turned to code. -/
theorem mark_strip {t : Text} (hfeed : contains ['\\', '\n'] t = false) :
    mark .code (strip t) = settled (mark .code t) :=
  mark_kept (s := .code) hfeed

/-! ## Normal texts -/

/-- No character stands in a comment, and only line feeds stand in bodies. -/
def IsNormal (t : Text) : Prop :=
  ∀ m ∈ mark .code t, m.2 ≠ .comment ∧ (m.2 = .literal → m.1 = '\n')

/-- Stripped text holds no comments and only line feeds in its literals. -/
theorem isNormal_strip {t : Text} (hfeed : contains ['\\', '\n'] t = false) :
    IsNormal (strip t) := by
  intro m hm
  rw [mark_strip hfeed] at hm
  obtain ⟨n, hn, rfl⟩ := List.mem_map.mp hm
  have hkept : isKept n = true := (List.mem_filter.mp hn).2
  rw [resettle]
  split
  · exact ⟨Region.noConfusion, Region.noConfusion⟩
  · -- a kept character of a literal is a line feed
    rename_i hcomment
    refine ⟨hcomment, fun hliteral => ?_⟩
    simpa [isKept, hliteral] using hkept

/-- In a text where no backslash stands right before a line feed, stripping exposes neither a
comment nor the body of a literal, whether or not the enclosures of the text are closed; and
stripping once more changes nothing. -/
theorem strip_is_normal {t : Text} (hfeed : contains ['\\', '\n'] t = false) :
    strip (strip t) = strip t ∧ IsNormal (strip t) := by
  refine ⟨?_, isNormal_strip hfeed⟩
  rw [strip_eq_kept (strip t), mark_strip hfeed, kept_settled, strip_eq_kept]

-- a line feed behind a backslash stays without it, and ends the literal
example : strip "\"\\\n\"a".toList = "\"\n\"a".toList := by decide

example : strip "\"\n\"a".toList = "\"\n\"".toList := by decide

/-- Slashes around comments, an escaped quote, a literal that its line ends, and a template that
nothing ends. -/
def looseEnds : Text :=
  "a/ /*'*///\n*/'b\\''\"//\n\x60/*\n".toList

theorem looseEnds_are_normal_when_stripped :
    contains ['\\', '\n'] looseEnds = false ∧
      strip looseEnds = "a/ \n*/''\"\n\x60\n".toList ∧
      strip (strip looseEnds) = strip looseEnds ∧ IsNormal (strip looseEnds) := by
  have hfeed : contains ['\\', '\n'] looseEnds = false := by decide
  exact ⟨hfeed, by decide, strip_is_normal hfeed⟩

end NamingLint.Source
