import NamingLint.Proofs.Source.Enclosure
import NamingLint.Proofs.Text.Ending

/-!
# NamingLint — line endings in source texts

Writing a carriage return before each line feed does not change what the pass over a text takes for
code, comments and literals, with one exception: in a literal that ends with its line, a backslash at
the end of the line takes the carriage return with it and no longer the line feed. Texts without such
literals are the same when stripped, up to carriage returns. These stay where the line ends in code,
and go where it ends in a comment or a literal.

* `feedsOnlyInTemplates` — no line ends inside a literal other than a template.

Main results:

* `strip_withReturns` — stripping, with either line ending.
-/

namespace NamingLint.Source

open Text

/-- Do line feeds stand in no literal but templates? `quote` is the last quote before the marks. -/
def feedsOnlyInTemplates (quote : Option Char) : List (Char × Region) → Bool
  | [] => true
  | (c, .quote) :: ms => feedsOnlyInTemplates (some c) ms
  | (c, .literal) :: ms =>
    (c ≠ '\n' || quote = some '\x60') && feedsOnlyInTemplates quote ms
  | (_, .code) :: ms => feedsOnlyInTemplates quote ms
  | (_, .comment) :: ms => feedsOnlyInTemplates quote ms

/-- `u` is `t` with carriage returns before some line feeds. -/
def Returned (t u : Text) : Prop :=
  Paired u ∧ plain u = t

theorem Returned.append {t u t' u' : Text} (h : Returned t u) (h' : Returned t' u') :
    Returned (t ++ t') (u ++ u') :=
  ⟨h.1.append h'.1, by rw [plain_append, h.2, h'.2]⟩

/-- A text without carriage returns, with none put in. -/
theorem Returned.refl {t : Text} (h : '\r' ∉ t) : Returned t t := by
  refine ⟨?_, plain_of_not_mem h⟩
  induction t with
  | nil => exact .nil
  | cons c t ih =>
    exact .keep (Ne.symm (List.ne_of_not_mem_cons h)) (ih (List.not_mem_of_not_mem_cons h))

/-- A line ending whose carriage return stays. -/
theorem returned_pair : Returned ['\n'] ['\r', '\n'] :=
  ⟨.pair .nil, rfl⟩

/-- A line ending whose carriage return is dropped. -/
theorem returned_feed : Returned ['\n'] ['\n'] :=
  .refl (by decide)

theorem withReturns_cons {c : Char} (hc : c ≠ '\n') (t : Text) :
    withReturns (c :: t) = c :: withReturns t := by
  rw [withReturns, if_neg hc]

/-- A text starts with a character other than a carriage return only if it did before. -/
theorem head?_of_withReturns {c : Char} (hc : c ≠ '\r') {t : Text}
    (h : (withReturns t).head? = some c) : t.head? = some c := by
  cases t with
  | nil => exact h
  | cons d t =>
    rw [withReturns] at h
    split at h
    · exact absurd (Option.some.inj h).symm hc
    · exact h

/-! ## The pass at line endings -/

theorem mark_code_ending (t : Text) :
    mark .code ('\r' :: '\n' :: t) = [('\r', .code), ('\n', .code)] ++ mark .code t := by
  rw [mark_code rfl fun h => absurd h (by decide), mark_code_feed]
  rfl

/-- A line comment takes the carriage return with it and ends at the line feed. -/
theorem mark_lineComment_ending (t : Text) :
    mark .lineComment ('\r' :: '\n' :: t) =
      [('\r', .comment), ('\n', .code)] ++ mark .code t := by
  rw [mark, if_neg (by decide), mark, if_pos rfl]
  rfl

theorem mark_blockComment_ending (t : Text) :
    mark .blockComment ('\r' :: '\n' :: t) =
      [('\r', .comment), ('\n', .comment)] ++ mark .blockComment t := by
  rw [mark_blockComment fun h => absurd h (by decide),
    mark_blockComment fun h => absurd h (by decide)]
  rfl

/-- A literal takes the carriage return with it, whatever it makes of the line feed. -/
theorem mark_literal_ending {q : Char} (hq : isQuote q = true) (t : Text) :
    mark (.literal q) ('\r' :: '\n' :: t) =
      ('\r', .literal) :: mark (.literal q) ('\n' :: t) := by
  have hne : '\r' ≠ q := by
    rintro rfl
    exact absurd hq (by decide)
  exact mark_literal_plain (by decide) hne (fun h => absurd h (by decide)) _

/-- No comment opens or closes only because of carriage returns: a slash or a star that follows
followed before. -/
theorem continuesComment_withReturns {t : Text} (h : continuesComment t = false) :
    continuesComment (withReturns t) = false := by
  rw [continuesComment, Bool.or_eq_false_iff, decide_eq_false_iff_not, decide_eq_false_iff_not]
    at h ⊢
  exact ⟨fun hhead => h.1 (head?_of_withReturns (by decide) hhead),
    fun hhead => h.2 (head?_of_withReturns (by decide) hhead)⟩

/-- A step of the pass over a text, along with the step over the text with carriage returns. It goes
to the same state, and stripping leaves the same of what it marks. -/
theorem Returned.step {s s' : State} {t t' : Text} (ms ns : List (Char × Region))
    (hstep : mark s (withReturns t) = ns ++ mark s' (withReturns t'))
    (hkept : Returned (kept ms) (kept ns))
    (hrest : Returned (kept (mark s' t')) (kept (mark s' (withReturns t')))) :
    Returned (kept (ms ++ mark s' t')) (kept (mark s (withReturns t))) := by
  rw [hstep, kept_append, kept_append]
  exact hkept.append hrest

/-- A step over a character that is no line ending is the same in both texts. -/
theorem Returned.step_same {s s' : State} {t t' : Text} (ms : List (Char × Region))
    (hreturn : '\r' ∉ ms.map Prod.fst)
    (hstep : mark s (withReturns t) = ms ++ mark s' (withReturns t'))
    (hrest : Returned (kept (mark s' t')) (kept (mark s' (withReturns t')))) :
    Returned (kept (ms ++ mark s' t')) (kept (mark s (withReturns t))) := by
  refine .step ms ms hstep (.refl fun hmem => hreturn ?_) hrest
  exact (List.filter_sublist.map Prod.fst).subset hmem

/-- From any state on, stripping leaves the same of both texts, up to carriage returns. In a literal
the quote that opened it is known, so that a line feed in it tells that it is a template. -/
theorem kept_mark_withReturns {s : State} {t : Text} {quote : Option Char} (hreturn : '\r' ∉ t)
    (hstate : ∀ q, s = .literal q → isQuote q = true ∧ quote = some q)
    (hfeeds : feedsOnlyInTemplates quote (mark s t) = true) :
    Returned (kept (mark s t)) (kept (mark s (withReturns t))) := by
  -- along the steps of the pass; they differ at line endings, where each state has its own way
  fun_induction mark s t generalizing quote with
  | case1 s =>
    rw [withReturns, mark]
    exact .refl (by simp [kept])
  | case2 t ih =>
    have hrest := List.not_mem_of_not_mem_cons (List.not_mem_of_not_mem_cons hreturn)
    exact .step_same [('/', .comment), ('/', .comment)] (by decide) rfl (ih hrest (by simp) hfeeds)
  | case3 t ih =>
    have hrest := List.not_mem_of_not_mem_cons (List.not_mem_of_not_mem_cons hreturn)
    exact .step_same [('/', .comment), ('*', .comment)] (by decide) rfl (ih hrest (by simp) hfeeds)
  | case4 c t _ _ hquote ih =>
    have hfeed : c ≠ '\n' := by
      rintro rfl
      exact absurd hquote (by decide)
    refine .step_same [(c, .quote)] (by simpa using List.ne_of_not_mem_cons hreturn) ?_
      (ih (List.not_mem_of_not_mem_cons hreturn) ?_ hfeeds)
    · rw [withReturns_cons hfeed, mark_quote hquote]
      rfl
    · rintro q ⟨⟩
      exact ⟨hquote, rfl⟩
  | case5 c t hline hblock hquote ih =>
    have ih := ih (List.not_mem_of_not_mem_cons hreturn) (by simp) hfeeds
    by_cases hfeed : c = '\n'
    · subst hfeed
      exact .step [('\n', .code)] _ (mark_code_ending (withReturns t)) returned_pair ih
    · have hslash : c = '/' → continuesComment (withReturns t) = false := fun hc =>
        continuesComment_withReturns
          (continuesComment_eq_false (fun u => hline u hc) (fun u => hblock u hc))
      refine .step_same [(c, .code)] (by simpa using List.ne_of_not_mem_cons hreturn) ?_ ih
      rw [withReturns_cons hfeed, mark_code (by simpa using hquote) hslash]
      rfl
  | case6 t ih =>
    exact .step [('\n', .code)] _ (mark_lineComment_ending (withReturns t)) returned_feed
      (ih (List.not_mem_of_not_mem_cons hreturn) (by simp) hfeeds)
  | case7 c t hfeed ih =>
    refine .step_same [(c, .comment)] (by simpa using List.ne_of_not_mem_cons hreturn) ?_
      (ih (List.not_mem_of_not_mem_cons hreturn) (by simp) hfeeds)
    rw [withReturns_cons hfeed, mark, if_neg hfeed]
    rfl
  | case8 t ih =>
    have hrest := List.not_mem_of_not_mem_cons (List.not_mem_of_not_mem_cons hreturn)
    exact .step_same [('*', .comment), ('/', .comment)] (by decide) rfl (ih hrest (by simp) hfeeds)
  | case9 c t hend ih =>
    have ih := ih (List.not_mem_of_not_mem_cons hreturn) (by simp) hfeeds
    by_cases hfeed : c = '\n'
    · subst hfeed
      exact .step [('\n', .comment)] _ (mark_blockComment_ending (withReturns t)) returned_feed ih
    · have hstar : c = '*' → (withReturns t).head? ≠ some '/' := by
        intro hc hhead
        obtain ⟨u, hu⟩ := List.head?_eq_some_iff.mp (head?_of_withReturns (by decide) hhead)
        exact hend u hc hu
      refine .step_same [(c, .comment)] (by simpa using List.ne_of_not_mem_cons hreturn) ?_ ih
      rw [withReturns_cons hfeed, mark_blockComment hstar]
      rfl
  | case10 q c t ih =>
    obtain ⟨hq, hquote⟩ := hstate q rfl
    simp only [feedsOnlyInTemplates, Bool.and_eq_true, Bool.or_eq_true, decide_eq_true_eq] at hfeeds
    have htail := List.not_mem_of_not_mem_cons hreturn
    have ih := ih (List.not_mem_of_not_mem_cons htail) hstate hfeeds.2.2
    by_cases hfeed : c = '\n'
    · -- the backslash takes the carriage return; in a template the line feed stays in the body
      subst hfeed
      obtain rfl : q = '\x60' := by
        have h := hfeeds.2.1
        simpa [hquote] using h
      refine .step [('\\', .literal), ('\n', .literal)]
        [('\\', .literal), ('\r', .literal), ('\n', .literal)] ?_ returned_feed ih
      rw [withReturns_cons (by decide), withReturns, if_pos rfl, mark,
        mark_literal_plain (by decide) (by decide) (fun _ => by decide)]
      rfl
    · refine .step_same [('\\', .literal), (c, .literal)] ?_ ?_ ih
      · simpa using List.ne_of_not_mem_cons htail
      · rw [withReturns_cons (by decide), withReturns_cons hfeed, mark]
        rfl
  | case11 q t hend ih =>
    -- a backslash at the very end
    obtain rfl : t = [] := by
      cases t with
      | nil => rfl
      | cons d t => exact (hend d t rfl rfl).elim
    exact ⟨.nil, rfl⟩
  | case12 q t _ hbackslash ih =>
    obtain ⟨hq, -⟩ := hstate q rfl
    have hfeed : q ≠ '\n' := by
      rintro rfl
      exact absurd hq (by decide)
    refine .step_same [(q, .quote)] (by simpa using List.ne_of_not_mem_cons hreturn) ?_
      (ih (List.not_mem_of_not_mem_cons hreturn) (by simp) hfeeds)
    rw [withReturns_cons hfeed, mark_literal_quote hbackslash]
    rfl
  | case13 q c t _ hbackslash hne hends ih =>
    -- the literal ends with its line
    obtain ⟨rfl, hends⟩ := hends
    refine .step [('\n', .code)] [('\r', .literal), ('\n', .code)] ?_ returned_feed
      (ih (List.not_mem_of_not_mem_cons hreturn) (by simp) hfeeds)
    rw [withReturns, if_pos rfl, mark_literal_ending (hstate q rfl).1, mark_literal_lineEnd hne hends]
    rfl
  | case14 q c t _ hbackslash hne hends ih =>
    simp only [feedsOnlyInTemplates, Bool.and_eq_true] at hfeeds
    have ih := ih (List.not_mem_of_not_mem_cons hreturn) hstate hfeeds.2
    have hplain : c = '\n' → endsAtFeed q = false := by
      intro hc
      simpa [hc] using hends
    by_cases hfeed : c = '\n'
    · subst hfeed
      refine .step [('\n', .literal)] [('\r', .literal), ('\n', .literal)] ?_ returned_feed ih
      rw [withReturns, if_pos rfl, mark_literal_ending (hstate q rfl).1,
        mark_literal_plain hbackslash hne hplain]
      rfl
    · refine .step_same [(c, .literal)] (by simpa using List.ne_of_not_mem_cons hreturn) ?_ ih
      rw [withReturns_cons hfeed, mark_literal_plain hbackslash hne hplain]
      rfl

/-- Stripping a text with carriage returns at its line ends leaves what stripping the text leaves,
with carriage returns at some line ends. -/
theorem strip_withReturns {t : Text} (hreturn : '\r' ∉ t)
    (hfeeds : feedsOnlyInTemplates none (mark .code t) = true) :
    Paired (strip (withReturns t)) ∧ plain (strip (withReturns t)) = strip t :=
  kept_mark_withReturns hreturn (by simp) hfeeds

-- a literal that goes on in the next line ends with its line if that has a carriage return
example : strip "\"\\\nlet a_b = 1;\"".toList = "\"\n\"".toList := by decide

example : strip (withReturns "\"\\\nlet a_b = 1;\"".toList) = "\"\nlet a_b = 1;\"".toList := by decide

end NamingLint.Source
