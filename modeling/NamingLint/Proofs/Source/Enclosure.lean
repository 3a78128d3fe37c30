import NamingLint.Proofs.Source.Strip

/-!
# NamingLint — comments and literals as enclosures

A comment or a literal encloses a body between what opens it and what ends it. The pass over a text
enters a body at the opener and is back in code right after the end, whatever the body holds:
quotes in comments, comment marks in literals, escapes in front of quotes. So stripping leaves of an
enclosure its quotes and the line feeds of its body.

* `Enclosure` — a line comment, a block comment, or a literal with its quote.
* `Enclosure.IsBody` — what may stand inside.
* `Enclosure.Ends` — how an enclosure comes to its end: by its closing mark, at a line feed, or
  because the text is over.
* `Enclosure.Swaps` — bodies that may stand in each other's place.
* `SameCode` — two texts that differ in the bodies of their enclosures only.

Main results:

* `strip_enclosure` — what stripping leaves of an enclosure.
* `SameCode.refl` — every text is code and enclosures, so `SameCode` speaks about every text.
* `SameCode.strip_eq` — texts that differ in bodies only are the same when stripped.
-/

namespace NamingLint.Source

/-! ## Steps of the pass -/

/-- Does a slash before this text open a comment? -/
def continuesComment (t : Text) : Bool :=
  t.head? = some '/' || t.head? = some '*'

/-- A slash opens a comment only in front of a slash or a star. -/
theorem continuesComment_eq_false {t : Text} (hline : ∀ u, t ≠ '/' :: u)
    (hblock : ∀ u, t ≠ '*' :: u) : continuesComment t = false := by
  cases t with
  | nil => rfl
  | cons c t =>
    have hslash : c ≠ '/' := fun hc => hline t (by rw [hc])
    have hstar : c ≠ '*' := fun hc => hblock t (by rw [hc])
    simp [continuesComment, hslash, hstar]

/-- A character of code that opens no comment. -/
theorem mark_code_cons {c : Char} {t : Text} (hslash : c = '/' → continuesComment t = false) :
    mark .code (c :: t) =
      if isQuote c = true then (c, .quote) :: mark (.literal c) t
      else (c, .code) :: mark .code t := by
  rw [mark]
  · rintro u rfl rfl
    simp [continuesComment] at hslash
  · rintro u rfl rfl
    simp [continuesComment] at hslash

theorem mark_code {c : Char} {t : Text} (hc : isQuote c = false)
    (hslash : c = '/' → continuesComment t = false) :
    mark .code (c :: t) = (c, .code) :: mark .code t := by
  rw [mark_code_cons hslash, if_neg (by simp [hc])]

/-- In code a quote opens a literal. -/
theorem mark_quote {q : Char} (hq : isQuote q = true) (t : Text) :
    mark .code (q :: t) = (q, .quote) :: mark (.literal q) t := by
  have hslash : q ≠ '/' := by
    rintro rfl
    simp [isQuote] at hq
  rw [mark_code_cons fun h => absurd h hslash, if_pos hq]

/-- A block comment goes on up to its closing mark. -/
theorem mark_blockComment {c : Char} {t : Text} (h : c = '*' → t.head? ≠ some '/') :
    mark .blockComment (c :: t) = (c, .comment) :: mark .blockComment t := by
  rw [mark]
  rintro u rfl rfl
  simp at h

/-- A character of a literal that escapes no other. -/
theorem mark_literal_cons {q c : Char} (hc : c ≠ '\\') (t : Text) :
    mark (.literal q) (c :: t) =
      if c = q then (c, .quote) :: mark .code t
      else if c = '\n' ∧ endsAtFeed q = true then (c, .code) :: mark .code t
      else (c, .literal) :: mark (.literal q) t := by
  rw [mark]
  · rw [if_neg hc]
  · rintro d u h
    exact absurd h hc

/-- The quote that opened a literal closes it. -/
theorem mark_literal_quote {q : Char} (hq : q ≠ '\\') (t : Text) :
    mark (.literal q) (q :: t) = (q, .quote) :: mark .code t := by
  rw [mark_literal_cons hq, if_pos rfl]

/-- Any other character is part of the literal. -/
theorem mark_literal_plain {q c : Char} (hc : c ≠ '\\') (hq : c ≠ q)
    (hfeed : c = '\n' → endsAtFeed q = false) (t : Text) :
    mark (.literal q) (c :: t) = (c, .literal) :: mark (.literal q) t := by
  rw [mark_literal_cons hc, if_neg hq, if_neg]
  rintro ⟨hn, hends⟩
  rw [hfeed hn] at hends
  simp at hends

/-- A line feed that ends a literal or a line comment is code. -/
theorem mark_code_feed (t : Text) : mark .code ('\n' :: t) = ('\n', .code) :: mark .code t :=
  mark_code rfl fun h => absurd h (by decide)

/-- A literal that ends with its line leaves the line feed to the code. -/
theorem mark_literal_lineEnd {q : Char} (hq : '\n' ≠ q) (hends : endsAtFeed q = true) (t : Text) :
    mark (.literal q) ('\n' :: t) = ('\n', .code) :: mark .code t := by
  rw [mark_literal_cons (by decide), if_neg hq, if_pos ⟨rfl, hends⟩]

/-- A literal that ends with its line leaves the line feed to the code. -/
theorem mark_literal_feed {q : Char} (hq : isQuote q = true) (hends : endsAtFeed q = true)
    (t : Text) : mark (.literal q) ('\n' :: t) = mark .code ('\n' :: t) := by
  have hne : '\n' ≠ q := by
    rintro rfl
    simp [isQuote] at hq
  rw [mark_code_feed, mark_literal_lineEnd hne hends]

/-! ## What is left -/

/-- The line feeds of a text. -/
def feeds (t : Text) : Text :=
  t.filter (· = '\n')

/-- The quotes of a text. -/
def quotes (t : Text) : Text :=
  t.filter isQuote

theorem feeds_cons (c : Char) (t : Text) :
    feeds (c :: t) = if c = '\n' then '\n' :: feeds t else feeds t := by
  by_cases hc : c = '\n' <;> simp [feeds, hc]

theorem feeds_eq_of_count_eq {t u : Text} (h : t.count '\n' = u.count '\n') : feeds t = feeds u := by
  rw [feeds, feeds, List.filter_eq, List.filter_eq, h]

theorem kept_code (c : Char) (ms : List (Char × Region)) :
    kept ((c, .code) :: ms) = c :: kept ms :=
  kept_cons_of_pos rfl ms

theorem kept_quote (c : Char) (ms : List (Char × Region)) :
    kept ((c, .quote) :: ms) = c :: kept ms :=
  kept_cons_of_pos rfl ms

/-- Of comments and bodies, line feeds are left. -/
theorem kept_dropped {c : Char} {r : Region} (hr : r = .comment ∨ r = .literal)
    (ms : List (Char × Region)) :
    kept ((c, r) :: ms) = if c = '\n' then '\n' :: kept ms else kept ms := by
  split
  · rename_i hc
    rw [hc, kept_cons_of_pos (isKept_of_feed rfl)]
  · rename_i hc
    rw [kept_cons_of_neg]
    rcases hr with rfl | rfl <;> simp [isKept, hc]

/-! ## Enclosures -/

/-- A comment or a literal. -/
inductive Enclosure where
  | lineComment
  | blockComment
  | literal (quote : Char) (isQuote_quote : isQuote quote = true)

/-- What may stand in a literal: characters that a backslash takes with it, and others that neither
close the literal nor end it. -/
inductive LiteralBody (quote : Char) : Text → Prop where
  | nil : LiteralBody quote []
  | escaped (c : Char) {t : Text} (rest : LiteralBody quote t) :
    LiteralBody quote ('\\' :: c :: t)
  | plain {c : Char} {t : Text} (notBackslash : c ≠ '\\') (notQuote : c ≠ quote)
    (feed : c = '\n' → endsAtFeed quote = false) (rest : LiteralBody quote t) :
    LiteralBody quote (c :: t)

/-- Where there is no backslash, nothing is escaped. -/
theorem LiteralBody.of_all {q : Char} {t : Text}
    (h : t.all (fun c => c ≠ '\\' && c ≠ q && c ≠ '\n') = true) : LiteralBody q t := by
  induction t with
  | nil => exact .nil
  | cons c t ih =>
    simp only [List.all_cons, Bool.and_eq_true, decide_eq_true_eq] at h
    obtain ⟨⟨⟨hback, hquote⟩, hfeed⟩, hrest⟩ := h
    exact .plain hback hquote (fun hc => absurd hc hfeed) (ih hrest)

namespace Enclosure

/-- What opens the enclosure. -/
def opener : Enclosure → Text
  | lineComment => ['/', '/']
  | blockComment => ['/', '*']
  | literal q _ => [q]

/-- What the pass over a text is inside of, in the body. -/
def state : Enclosure → State
  | lineComment => .lineComment
  | blockComment => .blockComment
  | literal q _ => .literal q

/-- What may stand inside. -/
def IsBody : Enclosure → Text → Prop
  | lineComment, b => '\n' ∉ b
  | blockComment, b => ¬ ['*', '/'] <:+: b
  | literal q _, b => LiteralBody q b

instance (b : Text) : Decidable (lineComment.IsBody b) :=
  inferInstanceAs (Decidable ('\n' ∉ b))

theorem isBody_of_slash_not_mem {b : Text} (h : '/' ∉ b) : blockComment.IsBody b :=
  fun hmark => h (hmark.subset (by decide))

/-- Two bodies that may stand in each other's place: they have as many line feeds. -/
structure Swaps (e : Enclosure) (b b' : Text) : Prop where
  left : e.IsBody b
  right : e.IsBody b'
  feeds : b.count '\n' = b'.count '\n'

/-- How an enclosure comes to its end: the mark that closes it, and the text after that. Only block
comments and literals have closing marks; and a backslash at the end of a text closes nothing. -/
inductive Ends : Enclosure → Text → Text → Prop where
  | lineFeed (rest : Text) : Ends .lineComment [] ('\n' :: rest)
  | lineOver : Ends .lineComment [] []
  | blockClosed (rest : Text) : Ends .blockComment ['*', '/'] rest
  | blockOver : Ends .blockComment [] []
  | literalClosed {q : Char} (hq : isQuote q = true) (rest : Text) : Ends (.literal q hq) [q] rest
  | literalFeed {q : Char} (hq : isQuote q = true) (atFeed : endsAtFeed q = true) (rest : Text) :
    Ends (.literal q hq) [] ('\n' :: rest)
  | literalOver {q : Char} (hq : isQuote q = true) : Ends (.literal q hq) [] []
  | backslashOver {q : Char} (hq : isQuote q = true) : Ends (.literal q hq) ['\\'] []

/-- Of an opening mark only a quote is kept. -/
theorem kept_opener (e : Enclosure) (t : Text) :
    kept (mark .code (e.opener ++ t)) = quotes e.opener ++ kept (mark e.state t) := by
  cases e with
  | lineComment => rfl
  | blockComment => rfl
  | literal q hq =>
    show kept (mark .code (q :: t)) = quotes [q] ++ kept (mark (.literal q) t)
    rw [mark_quote hq, kept_quote]
    simp [quotes, hq]

/-- The body of a line comment is dropped. -/
theorem kept_lineBody {b : Text} (hb : '\n' ∉ b) (t : Text) :
    kept (mark .lineComment (b ++ t)) = feeds b ++ kept (mark .lineComment t) := by
  induction b with
  | nil => rfl
  | cons c b ih =>
    rw [List.mem_cons, not_or] at hb
    have hc : c ≠ '\n' := Ne.symm hb.1
    rw [List.cons_append, mark, if_neg hc, kept_dropped (.inl rfl), if_neg hc, ih hb.2, feeds_cons,
      if_neg hc]

/-- A body without the closing mark is passed over, as long as no mark arises where it ends. -/
theorem kept_blockBody {b t : Text} (hb : ¬ ['*', '/'] <:+: b) (ht : t.head? ≠ some '/') :
    kept (mark .blockComment (b ++ t)) = feeds b ++ kept (mark .blockComment t) := by
  induction b with
  | nil => rfl
  | cons c b ih =>
    rw [List.infix_cons_iff, not_or] at hb
    -- a star is followed by no slash, neither inside the body nor where it ends
    have hnext : c = '*' → (b ++ t).head? ≠ some '/' := by
      rintro rfl hhead
      cases b with
      | nil => exact ht hhead
      | cons d b =>
        simp only [List.cons_append, List.head?_cons, Option.some.injEq] at hhead
        subst hhead
        exact hb.1 ⟨b, rfl⟩
    rw [List.cons_append, mark_blockComment hnext, kept_dropped (.inl rfl), ih hb.2, feeds_cons]
    split <;> rfl

/-- Of the body of a literal only the line feeds are kept. -/
theorem kept_literalBody {q : Char} {b : Text} (hb : LiteralBody q b) (t : Text) :
    kept (mark (.literal q) (b ++ t)) = feeds b ++ kept (mark (.literal q) t) := by
  induction hb with
  | nil => rfl
  | escaped c _ ih =>
    -- the escaped character may be a line feed, the backslash is none
    have hback : '\\' ≠ '\n' := by decide
    rw [List.cons_append, List.cons_append, mark, kept_dropped (.inr rfl), if_neg hback,
      kept_dropped (.inr rfl), ih, feeds_cons, if_neg hback, feeds_cons]
    split <;> rfl
  | plain hc hq hfeed _ ih =>
    rw [List.cons_append, mark_literal_plain hc hq hfeed, kept_dropped (.inr rfl), ih, feeds_cons]
    split <;> rfl

/-- Of a body, its line feeds are left. -/
theorem kept_body {e : Enclosure} {b closer rest : Text} (hb : e.IsBody b)
    (hend : e.Ends closer rest) :
    kept (mark e.state (b ++ (closer ++ rest))) =
      feeds b ++ kept (mark e.state (closer ++ rest)) := by
  cases e with
  | lineComment => exact kept_lineBody hb _
  | literal q hq => exact kept_literalBody hb _
  | blockComment =>
    -- the closing mark starts with a star, so none arises where the body ends
    have hhead : (closer ++ rest).head? ≠ some '/' := by cases hend <;> simp
    exact kept_blockBody hb hhead

/-- After its end the pass is back in code. -/
theorem kept_end {e : Enclosure} {closer rest : Text} (hend : e.Ends closer rest) :
    kept (mark e.state (closer ++ rest)) = quotes closer ++ kept (mark .code rest) := by
  cases hend with
  | lineFeed rest =>
    show kept (mark .lineComment ('\n' :: rest)) = kept (mark .code ('\n' :: rest))
    rw [mark_code_feed, mark, if_pos rfl]
  | lineOver => rfl
  | blockClosed rest => rfl
  | blockOver => rfl
  | @literalClosed q hq rest =>
    -- a backslash is no quote, so the quote is not escaped by itself
    have hne : q ≠ '\\' := by
      rintro rfl
      simp [isQuote] at hq
    show kept (mark (.literal q) (q :: rest)) = quotes [q] ++ kept (mark .code rest)
    rw [mark_literal_quote hne, kept_quote]
    simp [quotes, hq]
  | @literalFeed q hq atFeed rest =>
    show kept (mark (.literal q) ('\n' :: rest)) = kept (mark .code ('\n' :: rest))
    rw [mark_literal_feed hq atFeed]
  | literalOver hq => rfl
  | backslashOver hq => rfl

end Enclosure

/-- Stripping leaves of an enclosure its quotes and the line feeds of its body, and goes on behind
it. -/
theorem strip_enclosure {e : Enclosure} {b closer rest : Text} (hb : e.IsBody b)
    (hend : e.Ends closer rest) :
    strip (e.opener ++ (b ++ (closer ++ rest))) =
      quotes e.opener ++ (feeds b ++ (quotes closer ++ strip rest)) := by
  rw [strip_eq_kept, e.kept_opener, e.kept_body hb hend, e.kept_end hend, strip_eq_kept]

theorem strip_code {c : Char} {t : Text} (hc : isQuote c = false)
    (hslash : c = '/' → continuesComment t = false) : strip (c :: t) = c :: strip t := by
  rw [strip_eq_kept, mark_code hc hslash, kept_code, strip_eq_kept]

/-! ## Every text is code and enclosures -/

namespace Enclosure

/-- Every text starts with the body of a line comment and its end. -/
theorem exists_lineBody (t : Text) :
    ∃ b closer rest, t = b ++ (closer ++ rest) ∧ lineComment.IsBody b ∧
      lineComment.Ends closer rest := by
  induction t with
  | nil => exact ⟨[], [], [], rfl, List.not_mem_nil, .lineOver⟩
  | cons c t ih =>
    by_cases hc : c = '\n'
    · subst hc
      exact ⟨[], [], '\n' :: t, rfl, List.not_mem_nil, .lineFeed t⟩
    · obtain ⟨b, closer, rest, rfl, hb, hend⟩ := ih
      have hcb : '\n' ∉ c :: b := by
        rw [List.mem_cons, not_or]
        exact ⟨Ne.symm hc, hb⟩
      exact ⟨c :: b, closer, rest, rfl, hcb, hend⟩

/-- Every text starts with the body of a block comment and its end. -/
theorem exists_blockBody (t : Text) :
    ∃ b closer rest, t = b ++ (closer ++ rest) ∧ blockComment.IsBody b ∧
      blockComment.Ends closer rest := by
  induction t with
  | nil => exact ⟨[], [], [], rfl, by simp [IsBody], .blockOver⟩
  | cons c t ih =>
    by_cases hc : c = '*' ∧ t.head? = some '/'
    · obtain ⟨rfl, hhead⟩ := hc
      obtain ⟨rest, rfl⟩ := List.head?_eq_some_iff.mp hhead
      exact ⟨[], ['*', '/'], rest, rfl, by simp [IsBody], .blockClosed rest⟩
    · obtain ⟨b, closer, rest, rfl, hb, hend⟩ := ih
      refine ⟨c :: b, closer, rest, rfl, ?_, hend⟩
      show ¬ ['*', '/'] <:+: c :: b
      rw [List.infix_cons_iff, not_or]
      refine ⟨?_, hb⟩
      -- a mark in front of the body would have closed the comment
      rintro ⟨b', hb'⟩
      simp only [List.cons_append, List.nil_append, List.cons.injEq] at hb'
      obtain ⟨rfl, rfl⟩ := hb'
      exact hc ⟨rfl, rfl⟩

/-- Every text starts with the body of a literal and its end. -/
theorem exists_literalBody {q : Char} (hq : isQuote q = true) (t : Text) :
    ∃ b closer rest, t = b ++ (closer ++ rest) ∧ (literal q hq).IsBody b ∧
      (literal q hq).Ends closer rest := by
  -- recursion on the text, two characters at once behind a backslash
  match t with
  | [] => exact ⟨[], [], [], rfl, .nil, .literalOver hq⟩
  | c :: t =>
    by_cases hback : c = '\\'
    · subst hback
      match t with
      | [] => exact ⟨[], ['\\'], [], rfl, .nil, .backslashOver hq⟩
      | d :: t =>
        obtain ⟨b, closer, rest, rfl, hb, hend⟩ := exists_literalBody hq t
        exact ⟨'\\' :: d :: b, closer, rest, rfl, .escaped d hb, hend⟩
    · by_cases hquote : c = q
      · subst hquote
        exact ⟨[], [c], t, rfl, .nil, .literalClosed hq t⟩
      · by_cases hfeed : c = '\n' ∧ endsAtFeed q = true
        · obtain ⟨rfl, hends⟩ := hfeed
          exact ⟨[], [], '\n' :: t, rfl, .nil, .literalFeed hq hends t⟩
        · obtain ⟨b, closer, rest, rfl, hb, hend⟩ := exists_literalBody hq t
          have hplain : c = '\n' → endsAtFeed q = false := by
            intro hc
            simpa [hc] using hfeed
          exact ⟨c :: b, closer, rest, rfl, .plain hback hquote hplain hb, hend⟩

/-- Whatever follows an opener starts with a body and its end. -/
theorem exists_body (e : Enclosure) (t : Text) :
    ∃ b closer rest, t = b ++ (closer ++ rest) ∧ e.IsBody b ∧ e.Ends closer rest := by
  cases e with
  | lineComment => exact exists_lineBody t
  | blockComment => exact exists_blockBody t
  | literal q hq => exact exists_literalBody hq t

theorem opener_ne_nil (e : Enclosure) : e.opener ≠ [] := by
  cases e <;> exact List.cons_ne_nil _ _

end Enclosure

/-- A text starts with a character of code, or with an opener. -/
theorem code_or_opener (c : Char) (t : Text) :
    (isQuote c = false ∧ (c = '/' → continuesComment t = false)) ∨
      ∃ (e : Enclosure) (u : Text), c :: t = e.opener ++ u := by
  by_cases hq : isQuote c = true
  · exact .inr ⟨.literal c hq, t, rfl⟩
  · have hcode : isQuote c = false := by simpa using hq
    -- a slash needs another character to open a comment
    by_cases hslash : c = '/' ∧ continuesComment t = true
    · obtain ⟨rfl, hnext⟩ := hslash
      rw [continuesComment, Bool.or_eq_true, decide_eq_true_iff, decide_eq_true_iff] at hnext
      right
      rcases hnext with h | h <;> obtain ⟨u, rfl⟩ := List.head?_eq_some_iff.mp h
      · exact ⟨.lineComment, u, rfl⟩
      · exact ⟨.blockComment, u, rfl⟩
    · left
      refine ⟨hcode, fun hc => ?_⟩
      simpa [hc] using hslash

/-! ## Texts with the same code -/

/-- Two texts that differ in the bodies of their enclosures only. -/
inductive SameCode : Text → Text → Prop where
  | nil : SameCode [] []
  | code {c : Char} {t u : Text} (notQuote : isQuote c = false)
    (notOpener : c = '/' → continuesComment t = false) (rest : SameCode t u) :
    SameCode (c :: t) (c :: u)
  | enclosed (e : Enclosure) {b b' closer t u : Text} (bodies : e.Swaps b b')
    (ends : e.Ends closer t) (rest : SameCode t u) :
    SameCode (e.opener ++ (b ++ (closer ++ t))) (e.opener ++ (b' ++ (closer ++ u)))

namespace SameCode

variable {t u : Text}

/-- Every text is code and enclosures. -/
theorem refl (t : Text) : SameCode t t := by
  -- by length, since what is left after an enclosure is no tail of the text by one character
  induction hlen : t.length using Nat.strong_induction_on generalizing t with
  | _ n ih =>
    cases t with
    | nil => exact .nil
    | cons c t =>
      rcases code_or_opener c t with ⟨hquote, hslash⟩ | ⟨e, v, hopen⟩
      · exact .code hquote hslash (ih t.length (by simp [← hlen]) t rfl)
      · obtain ⟨b, closer, rest, rfl, hb, hend⟩ := e.exists_body v
        have hshort : rest.length < n := by
          have hpos : 0 < e.opener.length := List.length_pos_of_ne_nil e.opener_ne_nil
          have hall := congrArg List.length hopen
          simp only [List.length_append] at hall
          omega
        rw [hopen]
        exact .enclosed e ⟨hb, hb, rfl⟩ hend (ih rest.length hshort rest rfl)

/-- Code without quotes and slashes may be put in front. -/
theorem append_left {v : Text} (hv : v.all (fun c => !isQuote c && c ≠ '/') = true)
    (h : SameCode t u) : SameCode (v ++ t) (v ++ u) := by
  induction v with
  | nil => exact h
  | cons c v ih =>
    simp only [List.all_cons, Bool.and_eq_true, Bool.not_eq_true', decide_eq_true_eq] at hv
    obtain ⟨⟨hquote, hslash⟩, hrest⟩ := hv
    exact .code hquote (fun hc => absurd hc hslash) (ih hrest)

/-- Texts with the same code start with the same character. -/
theorem head?_eq (h : SameCode t u) : t.head? = u.head? := by
  cases h with
  | nil => rfl
  | code => rfl
  | enclosed e => cases e <;> rfl

/-- Texts with the same code continue a comment alike. -/
theorem continuesComment_eq (h : SameCode t u) : continuesComment t = continuesComment u := by
  rw [continuesComment, continuesComment, h.head?_eq]

/-- An enclosure that ends in front of one ends in front of the other. -/
theorem ends {e : Enclosure} {closer : Text} (h : SameCode t u) (hend : e.Ends closer t) :
    e.Ends closer u := by
  have hover : t = [] → u = [] := by
    rintro rfl
    exact List.head?_eq_none_iff.mp h.head?_eq.symm
  have hfeed : ∀ v, t = '\n' :: v → ∃ w, u = '\n' :: w := by
    rintro v rfl
    exact List.head?_eq_some_iff.mp h.head?_eq.symm
  -- a closing mark needs nothing of what follows; the other ends look at its first character
  cases hend with
  | lineFeed v =>
    obtain ⟨w, rfl⟩ := hfeed v rfl
    exact .lineFeed w
  | lineOver => exact hover rfl ▸ .lineOver
  | blockClosed => exact .blockClosed u
  | blockOver => exact hover rfl ▸ .blockOver
  | literalClosed hq => exact .literalClosed hq u
  | literalFeed hq atFeed v =>
    obtain ⟨w, rfl⟩ := hfeed v rfl
    exact .literalFeed hq atFeed w
  | literalOver hq => exact hover rfl ▸ .literalOver hq
  | backslashOver hq => exact hover rfl ▸ .backslashOver hq

/-- Texts that differ in bodies only are the same when stripped. -/
theorem strip_eq (h : SameCode t u) : strip t = strip u := by
  induction h with
  | nil => rfl
  | code hquote hslash hrest ih =>
    -- both texts go on with the same character, so the slash opens nothing in either
    have hslash' := fun hc => hrest.continuesComment_eq ▸ hslash hc
    rw [strip_code hquote hslash, strip_code hquote hslash', ih]
  | enclosed e hbodies hend hrest ih =>
    rw [strip_enclosure hbodies.left hend, strip_enclosure hbodies.right (hrest.ends hend),
      feeds_eq_of_count_eq hbodies.feeds, ih]

end SameCode

end NamingLint.Source
