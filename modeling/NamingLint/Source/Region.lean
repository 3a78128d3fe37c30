import NamingLint.Text.Basic

/-!
# NamingLint — regions of a source text

Every character of a source text stands in code, in a comment, in the body of a literal, or is the
quote that opens or closes a literal.

* `Source.mark` — each character with its region, found in one pass.
* `Source.strip` — the text without comments and literal bodies. Code, quotes and all line feeds
  stay, so a line number computed on the stripped text holds for the source.
-/

namespace NamingLint.Source

/-- Where a character of a source text stands. -/
inductive Region where
  | code
  /-- Part of a comment, its marks included. -/
  | comment
  /-- A quote that opens or closes a literal. -/
  | quote
  /-- Part of the body of a literal. -/
  | literal
  deriving DecidableEq, Repr

/-- What the pass over a text is inside of. -/
inductive State where
  | code
  | lineComment
  | blockComment
  /-- A literal that the given quote closes. -/
  | literal (quote : Char)
  deriving DecidableEq, Repr

/-- Does this character open a literal? -/
def isQuote (c : Char) : Bool :=
  c = '"' || c = '\'' || c = '\x60'

/-- Does a line feed end a literal with this quote? Only a template may span lines. -/
def endsAtFeed (quote : Char) : Bool :=
  quote ≠ '\x60'

/-- Each character with its region, from a given state on. In a literal a backslash takes the next
character with it. -/
def mark : State → Text → List (Char × Region)
  | _, [] => []
  | .code, '/' :: '/' :: t => ('/', .comment) :: ('/', .comment) :: mark .lineComment t
  | .code, '/' :: '*' :: t => ('/', .comment) :: ('*', .comment) :: mark .blockComment t
  | .code, c :: t =>
    if isQuote c then (c, .quote) :: mark (.literal c) t else (c, .code) :: mark .code t
  | .lineComment, c :: t =>
    if c = '\n' then (c, .code) :: mark .code t else (c, .comment) :: mark .lineComment t
  | .blockComment, '*' :: '/' :: t => ('*', .comment) :: ('/', .comment) :: mark .code t
  | .blockComment, c :: t => (c, .comment) :: mark .blockComment t
  | .literal q, '\\' :: c :: t => ('\\', .literal) :: (c, .literal) :: mark (.literal q) t
  | .literal q, c :: t =>
    if c = '\\' then (c, .literal) :: mark (.literal q) t
    else if c = q then (c, .quote) :: mark .code t
    else if c = '\n' ∧ endsAtFeed q then (c, .code) :: mark .code t
    else (c, .literal) :: mark (.literal q) t

/-- Characters that stripping keeps: code, quotes, and line feeds wherever they stand. -/
def isKept (m : Char × Region) : Bool :=
  m.2 = .code || m.2 = .quote || m.1 = '\n'

/-- The text without comments and literal bodies. -/
def strip (t : Text) : Text :=
  ((mark .code t).filter isKept).map Prod.fst

end NamingLint.Source
