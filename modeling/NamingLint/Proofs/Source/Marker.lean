import Mathlib.Data.List.Chain
import NamingLint.Marker
import NamingLint.Proofs.Source.Composition

/-!
# NamingLint — markers in code

A marker is searched for in the stripped text, where characters are neighbours that were apart in
the source. Whatever is left of a literal keeps its quotes, and whatever is left of a line comment
its line feed, so no word without quotes and line feeds can reach across them. A comment inside a
line leaves nothing, and a word may reach across it: `@ignore/* .. */Casing` is a marker.

* `Spelled` — a word is written in the code of a source, with comments inside at most.
* `StandsInCode` — it is written there in one piece.

Main results:

* `contains_strip_iff` — the words of the stripped text are those that are spelled in the source.
* `strip_append_comment` — a comment counts as the line feeds in it.
* `markers_are_spelled_in_code` — both for markers; taking a comment out destroys none.
* `comment_hides_inside_marker` — a marker that does not stand in code in one piece.
-/

namespace NamingLint.Source

open Text

/-! ## What bodies follow -/

/-- Only quotes are marked as such. -/
theorem isQuote_of_mem_mark {s : State} {t : Text} (hs : ∀ q, s = .literal q → isQuote q = true)
    {c : Char} (hc : (c, .quote) ∈ mark s t) : isQuote c = true := by
  fun_induction mark s t <;> grind

/-- In a body, there is a body or a quote right before. -/
def Follows (m n : Char × Region) : Prop :=
  n.2 = .literal → m.2 = .literal ∨ m.2 = .quote

/-- The marks follow one another, also behind a mark that agrees with the state. -/
theorem isChain_cons_mark {s : State} {t : Text} {m : Char × Region}
    (hm : ∀ q, s = .literal q → m.2 = .literal ∨ m.2 = .quote) :
    (m :: mark s t).IsChain Follows := by
  fun_induction mark s t generalizing m <;> simp_all [Follows]

/-- A literal starts behind a quote. -/
theorem isChain_mark (t : Text) : (mark .code t).IsChain Follows := by
  -- a line feed of code in front, so that the first mark has one before it
  have h : (('\n', Region.code) :: mark .code t).IsChain Follows := isChain_cons_mark (by simp)
  exact h.of_cons

/-- From outside of bodies one gets into a body through a quote only. -/
theorem not_literal_of_isChain {m : Char × Region} {ms : List (Char × Region)}
    (hchain : (m :: ms).IsChain Follows) (hm : m.2 ≠ .literal)
    (hquote : ∀ n ∈ m :: ms, n.2 ≠ .quote) : ∀ n ∈ m :: ms, n.2 ≠ .literal := by
  induction ms generalizing m with
  | nil => simpa using hm
  | cons n ms ih =>
    rw [List.isChain_cons_cons] at hchain
    rw [List.forall_mem_cons] at hquote ⊢
    have hn : n.2 ≠ .literal := by
      intro hn
      -- behind a body or behind a quote, and neither is there
      rcases hchain.1 hn with hbody | hopened
      · exact hm hbody
      · exact hquote.1 hopened
    exact ⟨hm, ih hchain.2 hn hquote.2⟩

/-! ## Words in code -/

/-- Marked characters spell a word: those in code make it up, and all others stand in comments and
are no line feeds. -/
structure Spells (word : Text) (ms : List (Char × Region)) : Prop where
  code : (ms.filter (·.2 = .code)).map Prod.fst = word
  others : ∀ m ∈ ms, m.2 ≠ .code → m.2 = .comment ∧ m.1 ≠ '\n'

/-- The word is written in the code of the source, with nothing inside but comments within a
line. -/
def Spelled (word t : Text) : Prop :=
  ∃ ms, ms <:+: mark .code t ∧ Spells word ms

/-- The word is written in the code of the source, in one piece. -/
def StandsInCode (word t : Text) : Prop :=
  word.map (fun c => (c, Region.code)) <:+: mark .code t

/-- Where just code is kept, the code is left. -/
theorem kept_eq_of_code {ms : List (Char × Region)}
    (h : ∀ m ∈ ms, isKept m = true ↔ m.2 = .code) :
    kept ms = (ms.filter (·.2 = .code)).map Prod.fst := by
  rw [kept]
  congr 1
  apply List.filter_congr
  intro m hm
  rw [Bool.eq_iff_iff, h m hm, decide_eq_true_iff]

theorem isKept_of_code {m : Char × Region} (h : m.2 = .code) : isKept m = true := by
  simp [isKept, h]

/-- A word spelled with comments in it is a word when they are gone. -/
theorem Spells.kept_eq {word : Text} {ms : List (Char × Region)} (h : Spells word ms) :
    kept ms = word := by
  rw [kept_eq_of_code, h.code]
  intro m hm
  refine ⟨fun hkept => ?_, isKept_of_code⟩
  by_contra hcode
  obtain ⟨hcomment, hfeed⟩ := h.others m hm hcode
  simp [isKept, hcomment, hfeed] at hkept

/-- A word of the stripped text is what is left of a stretch of the source that starts with its
first character. -/
theorem exists_stretch {word t : Text} (hne : word ≠ []) (h : word <:+: strip t) :
    ∃ m ms, m :: ms <:+: mark .code t ∧ isKept m = true ∧ kept (m :: ms) = word := by
  obtain ⟨ns, hns, rfl⟩ := List.infix_map_iff.mp h
  obtain ⟨stretch, hstretch, rfl⟩ := List.infix_filter_iff.mp hns
  cases hfilter : stretch.filter isKept with
  | nil => simp [hfilter] at hne
  | cons m ns =>
    obtain ⟨dropped, ms, rfl, -, hm, rfl⟩ := List.filter_eq_cons_iff.mp hfilter
    refine ⟨m, ms, (List.suffix_append dropped _).isInfix.trans hstretch, hm, ?_⟩
    rw [kept, List.filter_cons_of_pos hm]

/-- A word of the stripped text is spelled in the raw one. -/
theorem spelled_of_infix_strip {word t : Text} (hne : word ≠ []) (hfeed : '\n' ∉ word)
    (hquote : ∀ c ∈ word, isQuote c = false) (h : word <:+: strip t) : Spelled word t := by
  obtain ⟨m, ms, hmarks, hm, rfl⟩ := exists_stretch hne h
  have hmem : ∀ n ∈ m :: ms, isKept n = true → n.1 ∈ kept (m :: ms) := fun n hn hkept =>
    List.mem_map_of_mem (List.mem_filter.mpr ⟨hn, hkept⟩)
  -- quotes and line feeds would be kept, so there are none in the stretch
  have hnofeed : ∀ n ∈ m :: ms, n.1 ≠ '\n' := fun n hn hc =>
    hfeed (hc ▸ hmem n hn (isKept_of_feed hc))
  have hnoquote : ∀ n ∈ m :: ms, n.2 ≠ .quote := by
    rintro ⟨c, r⟩ hn rfl
    have hc : isQuote c = true := isQuote_of_mem_mark (by simp) (hmarks.subset hn)
    rw [hquote c (hmem _ hn rfl)] at hc
    cases hc
  have hcode : ∀ n ∈ m :: ms, isKept n = true ↔ n.2 = .code := by
    intro n hn
    refine ⟨fun hkept => ?_, isKept_of_code⟩
    simpa [isKept, hnofeed n hn, hnoquote n hn] using hkept
  -- it starts in code, so without a quote it never gets into a body
  have hchain : (m :: ms).IsChain Follows := List.IsChain.infix (isChain_mark t) hmarks
  have hnobody : ∀ n ∈ m :: ms, n.2 ≠ .literal := by
    refine not_literal_of_isChain hchain ?_ hnoquote
    rw [(hcode m List.mem_cons_self).mp hm]
    exact Region.noConfusion
  refine ⟨m :: ms, hmarks, (kept_eq_of_code hcode).symm, ?_⟩
  intro n hn hother
  refine ⟨?_, hnofeed n hn⟩
  -- what is left of the regions is the comment
  cases hr : n.2 with
  | code => exact absurd hr hother
  | quote => exact absurd hr (hnoquote n hn)
  | literal => exact absurd hr (hnobody n hn)
  | comment => rfl

/-- The words of the stripped text, if they have neither quotes nor line feeds. -/
theorem contains_strip_iff {word : Text} (hne : word ≠ []) (hfeed : '\n' ∉ word)
    (hquote : ∀ c ∈ word, isQuote c = false) (t : Text) :
    contains word (strip t) = true ↔ Spelled word t := by
  rw [contains_iff]
  refine ⟨spelled_of_infix_strip hne hfeed hquote, ?_⟩
  rintro ⟨ms, ⟨before, after, hmarks⟩, hspells⟩
  rw [strip_eq_kept, ← hmarks, kept_append, kept_append, hspells.kept_eq]
  exact List.infix_append _ _ _

/-! ## Words around comments -/

/-- A word without a separator stands on one side of it. -/
theorem infix_of_not_mem {c : Char} {w x y : Text} (hc : c ∉ w) (h : w <:+: x ++ c :: y) :
    w <:+: x ∨ w <:+: y := by
  rcases List.infix_append_iff.mp h with hx | hy | ⟨a, b, rfl, ha, hb⟩
  · exact .inl hx
  · rcases List.infix_cons_iff.mp hy with hpre | hy
    · -- nothing but the empty word can start at the separator
      cases w with
      | nil => exact .inl (List.nil_infix)
      | cons d w =>
        obtain ⟨rfl, -⟩ := List.cons_prefix_cons.mp hpre
        exact absurd List.mem_cons_self hc
    · exact .inr hy
  · cases b with
    | nil =>
      rw [List.append_nil]
      exact .inl ha.isInfix
    | cons d b =>
      obtain ⟨rfl, -⟩ := List.cons_prefix_cons.mp hb
      exact absurd (List.mem_append_right a List.mem_cons_self) hc

/-- A word without line feeds is still there when line feeds are taken out of the text. -/
theorem infix_of_feeds {w x b y : Text} (hw : '\n' ∉ w) (h : w <:+: x ++ (feeds b ++ y)) :
    w <:+: x ++ y := by
  induction b generalizing x with
  | nil => exact h
  | cons c b ih =>
    rw [feeds_cons] at h
    split at h
    · -- the word lies on one side of the line feed
      rcases infix_of_not_mem hw h with hx | hrest
      · exact hx.trans (List.prefix_append x y).isInfix
      · have hy : w <:+: [] ++ y := ih hrest
        exact hy.trans (List.suffix_append x y).isInfix
    · exact ih h

/-- The enclosure is a comment. -/
def Enclosure.IsComment (e : Enclosure) : Prop :=
  e = .lineComment ∨ e = .blockComment

/-- A comment leaves its line feeds, and none of its marks is a quote. -/
theorem strip_append_comment {pre : Text} (hcode : stateAfter .code pre = .code)
    (hlast : (mark .code pre).getLast? ≠ some ('/', .code)) {e : Enclosure} (he : e.IsComment)
    {b closer rest : Text} (hb : e.IsBody b) (hend : e.Ends closer rest) :
    strip (pre ++ (e.opener ++ (b ++ (closer ++ rest)))) = strip (pre ++ (feeds b ++ rest)) := by
  have hopener : quotes e.opener = [] := by
    rcases he with rfl | rfl <;> rfl
  have hcloser : quotes closer = [] := by
    rcases he with rfl | rfl <;> cases hend <;> rfl
  rw [strip_append_enclosure hcode (fun t => meets_of_ne hlast _) hb hend, hopener, hcloser,
    strip_append hcode (meets_of_ne hlast _), strip_feeds_append, List.nil_append, List.nil_append]

end NamingLint.Source

namespace NamingLint.Marker

open Source Text

theorem word_ne_nil (m : Marker) : m.word.toList ≠ [] := by
  cases m <;> decide

theorem feed_not_mem_word (m : Marker) : '\n' ∉ m.word.toList := by
  cases m <;> decide

theorem not_isQuote_of_mem_word (m : Marker) : ∀ c ∈ m.word.toList, isQuote c = false := by
  have h : m.word.toList.all (fun c => !isQuote c) = true := by cases m <;> decide
  simpa using h

/-- A marker counts if and only if it is written in code, with nothing inside but comments within a
line. So a comment behind any text that ends in code, and not in a slash of code, counts for markers
as the line feeds in it; and taking it out with its line feeds destroys no marker. -/
theorem markers_are_spelled_in_code (m : Marker) :
    (∀ t, m.suppresses (strip t) = true ↔ Spelled m.word.toList t) ∧
    ∀ pre, stateAfter .code pre = .code → (mark .code pre).getLast? ≠ some ('/', .code) →
      ∀ (e : Enclosure) (b closer rest : Text), e.IsComment → e.IsBody b → e.Ends closer rest →
        m.suppresses (strip (pre ++ (e.opener ++ (b ++ (closer ++ rest))))) =
            m.suppresses (strip (pre ++ (feeds b ++ rest))) ∧
          (m.suppresses (strip (pre ++ (e.opener ++ (b ++ (closer ++ rest))))) = true →
            m.suppresses (strip (pre ++ rest)) = true) := by
  refine ⟨contains_strip_iff m.word_ne_nil m.feed_not_mem_word m.not_isQuote_of_mem_word, ?_⟩
  intro pre hcode hlast e b closer rest he hb hend
  rw [strip_append_comment hcode hlast he hb hend]
  refine ⟨rfl, fun hmarker => ?_⟩
  rw [suppresses, contains_iff, strip_append hcode (meets_of_ne hlast _),
    strip_feeds_append] at hmarker
  rw [suppresses, contains_iff, strip_append hcode (meets_of_ne hlast _)]
  exact infix_of_feeds m.feed_not_mem_word hmarker

/-- A comment inside a marker counts for nothing, and to take it out leaves the marker. -/
theorem marker_around_comment :
    stateAfter .code "@ignore".toList = .code ∧
      (mark .code "@ignore".toList).getLast? ≠ some ('/', .code) ∧
      casing.suppresses (strip "@ignore/*X*/Casing".toList) =
        casing.suppresses (strip "@ignoreCasing".toList) ∧
      (casing.suppresses (strip "@ignore/*X*/Casing".toList) = true →
        casing.suppresses (strip "@ignoreCasing".toList) = true) := by
  have hcode : stateAfter .code "@ignore".toList = .code := by decide
  have hlast : (mark .code "@ignore".toList).getLast? ≠ some ('/', .code) := by decide
  have hbody : Enclosure.blockComment.IsBody ['X'] :=
    Enclosure.isBody_of_slash_not_mem (by decide)
  exact ⟨hcode, hlast, (markers_are_spelled_in_code casing).2 _ hcode hlast .blockComment ['X']
    ['*', '/'] "Casing".toList (.inr rfl) hbody (.blockClosed _)⟩

/-- To comment out a letter inside makes a marker, which stands nowhere in code in one piece. -/
theorem comment_hides_inside_marker :
    casing.suppresses (strip "@ignore/*X*/Casing".toList) = true ∧
      ¬ StandsInCode casing.word.toList "@ignore/*X*/Casing".toList ∧
      casing.suppresses (strip "@ignoreXCasing".toList) = false := by
  refine ⟨by decide, ?_, by decide⟩
  intro h
  have hword := h.map Prod.fst
  rw [map_fst_mark, List.map_map, show Prod.fst ∘ (fun c => (c, Region.code)) = id from rfl,
    List.map_id, ← contains_iff] at hword
  exact absurd hword (by decide)

end NamingLint.Marker
