import NamingLint.Proofs.Source.Enclosure

/-!
# NamingLint — stripping a text part by part

A text that ends in code may be cut off: the pass starts anew behind it, so stripping goes part by
part. One look ahead can spoil this. A slash at the end of the first part opens a comment together
with a slash or a star at the start of the second.

* `stateAfter` — what the pass is inside of when a text is over.
* `Meets` — no comment opens where two parts meet.

Main results:

* `mark_append`, `strip_append` — the pass, and stripping, part by part.
* `strip_append_enclosure` — what stripping leaves of a comment or a literal behind any text that
  ends in code.
* `strip_reads_enclosures` — the same for each form of enclosure, told by what its body may be.
-/

namespace NamingLint.Source

open Text

/-! ## Ends -/

/-- What the pass over a text is inside of when the text is over. -/
def stateAfter : State → Text → State
  | s, [] => s
  | .code, '/' :: '/' :: t => stateAfter .lineComment t
  | .code, '/' :: '*' :: t => stateAfter .blockComment t
  | .code, c :: t => if isQuote c then stateAfter (.literal c) t else stateAfter .code t
  | .lineComment, c :: t =>
    if c = '\n' then stateAfter .code t else stateAfter .lineComment t
  | .blockComment, '*' :: '/' :: t => stateAfter .code t
  | .blockComment, _ :: t => stateAfter .blockComment t
  | .literal q, '\\' :: _ :: t => stateAfter (.literal q) t
  | .literal q, c :: t =>
    if c = '\\' then stateAfter (.literal q) t
    else if c = q then stateAfter .code t
    else if c = '\n' ∧ endsAtFeed q then stateAfter .code t
    else stateAfter (.literal q) t

/-- Where marked characters meet the text `u`, no comment opens: they do not end in a slash of code,
or the text cannot go on after one. -/
def Meets (ms : List (Char × Region)) (u : Text) : Prop :=
  ms.getLast? = some ('/', .code) → continuesComment u = false

theorem Meets.of_append {ms ns : List (Char × Region)} {u : Text} (h : Meets (ms ++ ns) u) :
    Meets ns u := by
  intro hlast
  exact h (by rw [List.getLast?_append, hlast, Option.some_or])

/-! ## Part by part -/

/-- A step of the pass that is the same whether or not more text follows. -/
private theorem mark_append_of_step {s s' : State} {t t' u : Text} (ms : List (Char × Region))
    (hstep : mark s t = ms ++ mark s' t') (hstep' : mark s (t ++ u) = ms ++ mark s' (t' ++ u))
    (hmeets : Meets (mark s t) u)
    (hrest : Meets (mark s' t') u → mark s' (t' ++ u) = mark s' t' ++ mark .code u) :
    mark s (t ++ u) = mark s t ++ mark .code u := by
  rw [hstep] at hmeets
  rw [hstep', hstep, hrest hmeets.of_append, List.append_assoc]

/-- Behind a text that ends in code the pass goes on as at the start. -/
theorem mark_append {s : State} {t u : Text} (hcode : stateAfter s t = .code)
    (hmeets : Meets (mark s t) u) : mark s (t ++ u) = mark s t ++ mark .code u := by
  -- along the steps of the pass; each but the last one sees as far ahead in `t` as in `t ++ u`
  fun_induction stateAfter s t with
  | case1 s =>
    subst hcode
    cases u <;> rfl
  | case2 t ih =>
    exact mark_append_of_step [('/', .comment), ('/', .comment)] rfl rfl hmeets (ih hcode)
  | case3 t ih =>
    exact mark_append_of_step [('/', .comment), ('*', .comment)] rfl rfl hmeets (ih hcode)
  | case4 q t _ _ hquote ih =>
    exact mark_append_of_step [(q, .quote)] (mark_quote hquote t) (mark_quote hquote (t ++ u))
      hmeets (ih hcode)
  | case5 c t hline hblock hquote ih =>
    have hquote : isQuote c = false := by simpa using hquote
    have hslash : c = '/' → continuesComment t = false := fun hc =>
      continuesComment_eq_false (fun v => hline v hc) (fun v => hblock v hc)
    -- a slash at the very end looks at what follows, any other one at the rest of the text
    have hslash' : c = '/' → continuesComment (t ++ u) = false := by
      intro hc
      cases t with
      | nil => exact hmeets (by rw [mark_code hquote hslash, hc]; rfl)
      | cons d t => exact hslash hc
    exact mark_append_of_step [(c, .code)] (mark_code hquote hslash) (mark_code hquote hslash')
      hmeets (ih hcode)
  | case6 t ih => exact mark_append_of_step [('\n', .code)] rfl rfl hmeets (ih hcode)
  | case7 c t hfeed ih =>
    have hstep : ∀ v, mark .lineComment (c :: v) = (c, .comment) :: mark .lineComment v :=
      fun v => by rw [mark, if_neg hfeed]
    exact mark_append_of_step [(c, .comment)] (hstep t) (hstep (t ++ u)) hmeets (ih hcode)
  | case8 t ih =>
    exact mark_append_of_step [('*', .comment), ('/', .comment)] rfl rfl hmeets (ih hcode)
  | case9 c t hend ih =>
    have hstar : c = '*' → t.head? ≠ some '/' := by
      intro hc hhead
      obtain ⟨v, hv⟩ := List.head?_eq_some_iff.mp hhead
      exact hend v hc hv
    -- the comment is closed further on, so the star is not at the end of the text
    have hstar' : c = '*' → (t ++ u).head? ≠ some '/' := by
      intro hc
      cases t with
      | nil => cases hcode
      | cons d t => exact hstar hc
    exact mark_append_of_step [(c, .comment)] (mark_blockComment hstar) (mark_blockComment hstar')
      hmeets (ih hcode)
  | case10 q c t ih =>
    exact mark_append_of_step [('\\', .literal), (c, .literal)] rfl rfl hmeets (ih hcode)
  | case11 q t hend ih =>
    -- a backslash at the end leaves the literal open
    cases t with
    | nil => cases hcode
    | cons d t => exact (hend d t rfl rfl).elim
  | case12 q t _ hback ih =>
    exact mark_append_of_step [(q, .quote)] (mark_literal_quote hback t)
      (mark_literal_quote hback (t ++ u)) hmeets (ih hcode)
  | case13 q c t _ hback hne hfeed ih =>
    obtain ⟨rfl, hends⟩ := hfeed
    exact mark_append_of_step [('\n', .code)] (mark_literal_lineEnd hne hends t)
      (mark_literal_lineEnd hne hends (t ++ u)) hmeets (ih hcode)
  | case14 q c t _ hback hne hfeed ih =>
    have hplain : c = '\n' → endsAtFeed q = false := by
      intro hc
      simpa [hc] using hfeed
    exact mark_append_of_step [(c, .literal)] (mark_literal_plain hback hne hplain t)
      (mark_literal_plain hback hne hplain (t ++ u)) hmeets (ih hcode)

/-- Texts that meet in code are stripped apart. -/
theorem strip_append {pre post : Text} (hcode : stateAfter .code pre = .code)
    (hmeets : Meets (mark .code pre) post) : strip (pre ++ post) = strip pre ++ strip post := by
  rw [strip_eq_kept, mark_append hcode hmeets, kept_append, strip_eq_kept, strip_eq_kept]

/-- Line feeds in code are left as they are. -/
theorem strip_feeds_append (b t : Text) : strip (feeds b ++ t) = feeds b ++ strip t := by
  induction b with
  | nil => rfl
  | cons c b ih =>
    rw [feeds_cons]
    split
    · have hslash : '\n' = '/' → continuesComment (feeds b ++ t) = false :=
        fun h => absurd h (by decide)
      rw [List.cons_append, strip_code rfl hslash, ih, List.cons_append]
    · exact ih

/-! ## Enclosures behind a text -/

/-- What stripping leaves of an enclosure behind any text that ends in code. -/
theorem strip_append_enclosure {pre : Text} (hcode : stateAfter .code pre = .code) {e : Enclosure}
    (hmeets : ∀ t, Meets (mark .code pre) (e.opener ++ t)) {b closer rest : Text}
    (hb : e.IsBody b) (hend : e.Ends closer rest) :
    strip (pre ++ (e.opener ++ (b ++ (closer ++ rest)))) =
      strip pre ++ (quotes e.opener ++ (feeds b ++ (quotes closer ++ strip rest))) := by
  rw [strip_append hcode (hmeets _), strip_enclosure hb hend]

/-- No quote goes on after a slash. -/
theorem meets_quote (ms : List (Char × Region)) {q : Char} (hq : isQuote q = true) (t : Text) :
    Meets ms (q :: t) := by
  intro _
  apply continuesComment_eq_false
  · rintro u h
    cases h
    cases hq
  · rintro u h
    cases h
    cases hq

theorem meets_of_ne {ms : List (Char × Region)} (h : ms.getLast? ≠ some ('/', .code)) (t : Text) :
    Meets ms t :=
  fun hlast => absurd hlast h

/-- A comment is closed by the first mark behind its opener: a body holds none, and none arises
where its own mark begins. -/
theorem isBody_blockComment_iff {b : Text} :
    Enclosure.blockComment.IsBody b ↔
      ∀ x y, b ++ ['*', '/'] = x ++ ['*', '/'] ++ y → y = [] := by
  constructor
  · intro hb x y h
    -- take off the last character, and once more; what is left of the mark would stand in the body
    rcases List.eq_nil_or_concat y with rfl | ⟨y, d, rfl⟩
    · rfl
    · have h₁ : (b ++ ['*']) ++ ['/'] = (x ++ ['*', '/'] ++ y) ++ [d] := by simpa using h
      have h₂ : b ++ ['*'] = x ++ ['*', '/'] ++ y := (List.append_inj' h₁ rfl).1
      rcases List.eq_nil_or_concat y with rfl | ⟨y, e, rfl⟩
      · have h₃ : b ++ ['*'] = (x ++ ['*']) ++ ['/'] := by simpa using h₂
        cases (List.append_inj' h₃ rfl).2
      · have h₃ : b ++ ['*'] = (x ++ ['*', '/'] ++ y) ++ [e] := by simpa using h₂
        exact absurd ⟨x, y, (List.append_inj' h₃ rfl).1.symm⟩ hb
  · rintro h ⟨x, y, rfl⟩
    have hend := h x (y ++ ['*', '/']) (by simp)
    simp at hend

theorem feeds_eq_nil {b : Text} (h : '\n' ∉ b) : feeds b = [] := by
  rw [feeds, List.filter_eq_nil_iff]
  intro c hc
  rw [decide_eq_true_iff]
  rintro rfl
  exact h hc

/-- A block comment leaves the line feeds of its body. -/
theorem strip_blockComment {pre b : Text} (hcode : stateAfter .code pre = .code)
    (hlast : (mark .code pre).getLast? ≠ some ('/', .code)) (hb : Enclosure.blockComment.IsBody b)
    (post : Text) :
    strip (pre ++ ['/', '*'] ++ b ++ ['*', '/'] ++ post) = strip pre ++ feeds b ++ strip post := by
  have h := strip_append_enclosure hcode (fun t => meets_of_ne hlast _) hb (.blockClosed post)
  simpa [Enclosure.opener, quotes, isQuote] using h

/-- A line comment leaves the line feed that ends it. -/
theorem strip_lineComment {pre b : Text} (hcode : stateAfter .code pre = .code)
    (hlast : (mark .code pre).getLast? ≠ some ('/', .code)) (hb : '\n' ∉ b) (post : Text) :
    strip (pre ++ ['/', '/'] ++ b ++ ['\n'] ++ post) = strip pre ++ ['\n'] ++ strip post := by
  have h := strip_append_enclosure (e := .lineComment) hcode (fun t => meets_of_ne hlast _) hb
    (.lineFeed post)
  have hfeed : strip ('\n' :: post) = '\n' :: strip post :=
    strip_code rfl fun h => absurd h (by decide)
  rw [feeds_eq_nil hb, hfeed] at h
  simpa [Enclosure.opener, quotes, isQuote] using h

/-- A literal leaves its quotes and the line feeds between them. -/
theorem strip_literal {pre b : Text} {q : Char} (hcode : stateAfter .code pre = .code)
    (hq : isQuote q = true) (hb : LiteralBody q b) (post : Text) :
    strip (pre ++ [q] ++ b ++ [q] ++ post) = strip pre ++ [q] ++ feeds b ++ [q] ++ strip post := by
  have h := strip_append_enclosure (e := .literal q hq) hcode (fun t => meets_quote _ hq t) hb
    (.literalClosed hq post)
  simpa [Enclosure.opener, quotes, hq] using h

/-- Behind any text that ends in code, and not in a slash of code, a comment leaves the line feeds
of its body; a block comment reaches to the first closing mark, a line comment to the end of its
line. Behind any text that ends in code, a literal leaves its quotes and the line feeds of its body,
escaped or not. -/
theorem strip_reads_enclosures {pre : Text} (hcode : stateAfter .code pre = .code) (post : Text) :
    ((mark .code pre).getLast? ≠ some ('/', .code) →
      (∀ b, (∀ x y, b ++ ['*', '/'] = x ++ ['*', '/'] ++ y → y = []) →
        strip (pre ++ ['/', '*'] ++ b ++ ['*', '/'] ++ post) =
          strip pre ++ feeds b ++ strip post) ∧
      (∀ b, '\n' ∉ b →
        strip (pre ++ ['/', '/'] ++ b ++ ['\n'] ++ post) =
          strip pre ++ ['\n'] ++ strip post)) ∧
    ∀ q b, isQuote q = true → LiteralBody q b →
      strip (pre ++ [q] ++ b ++ [q] ++ post) =
        strip pre ++ [q] ++ feeds b ++ [q] ++ strip post := by
  refine ⟨fun hlast => ⟨?_, ?_⟩, ?_⟩
  · intro b hb
    exact strip_blockComment hcode hlast (isBody_blockComment_iff.mpr hb) post
  · intro b hb
    exact strip_lineComment hcode hlast hb post
  · intro q b hq hb
    exact strip_literal hcode hq hb post

/-- All forms of enclosures, each with the marks of others in it, then code. -/
def mixedForms : Text :=
  "\x60//\x60\"\\\"/*\"/*'*///\"\na".toList

/-- Behind all forms: a comment that starts with a slash and ends with two stars, before a slash; a
comment with a quote in it; and behind a slash a literal with an escaped quote and an escaped line
feed. -/
theorem mixedForms_are_read :
    stateAfter .code mixedForms = .code ∧ stateAfter .code (mixedForms ++ ['/']) = .code ∧
    (mark .code mixedForms).getLast? ≠ some ('/', .code) ∧
    strip (mixedForms ++ ['/', '*'] ++ ['/', '\n', '*'] ++ ['*', '/'] ++ ['/', 'b']) =
      strip mixedForms ++ ['\n'] ++ strip ['/', 'b'] ∧
    strip (mixedForms ++ ['/', '/'] ++ ['\'', '*', '/'] ++ ['\n'] ++ ['/', 'b']) =
      strip mixedForms ++ ['\n'] ++ strip ['/', 'b'] ∧
    strip (mixedForms ++ ['/'] ++ ['"'] ++ ['\\', '"', '\\', '\n', '/', '*'] ++ ['"'] ++ ['b']) =
      strip (mixedForms ++ ['/']) ++ ['"'] ++ ['\n'] ++ ['"'] ++ strip ['b'] := by
  have hcode : stateAfter .code mixedForms = .code := by decide
  have hslash : stateAfter .code (mixedForms ++ ['/']) = .code := by decide
  have hlast : (mark .code mixedForms).getLast? ≠ some ('/', .code) := by decide
  -- a slash and a star in the wrong order close nothing
  have hblock : Enclosure.blockComment.IsBody ['/', '\n', '*'] := by
    show ¬ ['*', '/'] <:+: ['/', '\n', '*']
    rw [← contains_iff]
    decide
  have hliteral : LiteralBody '"' ['\\', '"', '\\', '\n', '/', '*'] :=
    .escaped _ <| .escaped _ <| .of_all rfl
  obtain ⟨hcomments, -⟩ := strip_reads_enclosures hcode ['/', 'b']
  obtain ⟨-, hliterals⟩ := strip_reads_enclosures hslash ['b']
  refine ⟨hcode, hslash, hlast, ?_, ?_, ?_⟩
  · exact (hcomments hlast).1 _ (isBody_blockComment_iff.mp hblock)
  · exact (hcomments hlast).2 _ (by decide)
  · exact hliterals '"' _ rfl hliteral

end NamingLint.Source
