import NamingLint.Declaration.Callable

/-!
# NamingLint — parameters

Parameter lists are found by their heads, cut at the commas that stand outside brackets, and read
segment by segment.

* `closingParen`, `openingParen` — the partner of a parenthesis.
* `parameterLists` — the lists of functions, methods and arrow functions, in this order.
* `segments` — a list cut at its top-level commas.
* `parameterName?` — the name a segment declares: rest marks and modifiers before it are passed
  over; destructured parameters and `this` declare none.
-/

namespace NamingLint

open Text

/-! ## Parentheses -/

/-- Runs over a text that starts at byte `offset`, counting parentheses from `depth`, to the closing
one that brings the count to zero. -/
def closingParenFrom : Int → Nat → Text → Option Nat
  | _, _, [] => none
  | depth, offset, c :: t =>
    if c = '(' then closingParenFrom (depth + 1) (offset + c.utf8Size) t
    else if c = ')' then
      if depth - 1 = 0 then some offset else closingParenFrom (depth - 1) (offset + c.utf8Size) t
    else closingParenFrom depth (offset + c.utf8Size) t

/-- Offset of the parenthesis that closes the one opened at a byte. -/
def closingParen (t : Text) (opened : Nat) : Option Nat :=
  closingParenFrom 0 opened (dropBytes opened t)

/-- Runs over a reversed text whose first character ends before byte `offset`, counting parentheses
from `depth`, to the opening one that brings the count to zero. -/
def openingParenFrom : Nat → Nat → Text → Option Nat
  | _, _, [] => none
  | depth, offset, c :: t =>
    if c = ')' then openingParenFrom (depth + 1) (offset - c.utf8Size) t
    else if c = '(' then
      if depth - 1 = 0 then some (offset - c.utf8Size)
      else openingParenFrom (depth - 1) (offset - c.utf8Size) t
    else openingParenFrom depth (offset - c.utf8Size) t

/-- Offset of the parenthesis that opens the one closed at a byte. -/
def openingParen (t : Text) (closed : Nat) : Option Nat :=
  openingParenFrom 0 (closed + 1) (takeBytes (closed + 1) t).reverse

/-! ## Heads -/

/-- A parameter list in a text. -/
structure ParameterList where
  /-- The construct that has the list, as far as it is shown with a parameter. -/
  head : Span
  /-- What stands between the parentheses. -/
  list : Span
  deriving DecidableEq, Repr

/-- `function* NAME<T>(`, the name optional. -/
def functionHeadShape : Shape :=
  .ofPieces Shape.atWordStart .functionWord (.many Text.isIdent) .openList

/-- `static NAME<T>(` at the start of a line. -/
def methodHeadShape : Shape :=
  .ofPieces Shape.atLineStart .methodLead .identifier .openList

/-- Does the body of a method follow: an optional type, then an opening brace? -/
def hasBody (t : Text) : Bool :=
  ((Piece.seq [.blanks, .optional (.ascription ['\x7b', ';']), .char '\x7b']).take t).isSome

/-- `): Type =>`; there is no name in it. -/
def arrowTailShape : Shape :=
  .ofPieces Shape.anywhere
    (.seq [.char ')', .blanks, .optional (.ascription ['=', ';', '\x7b', '\x7d', '\n']), .arrow])
    .nothing .nothing

/-- A lead, blanks, a bare parameter, and its arrow. -/
def bareParameterShape (starts : Option Char → Bool) (lead : Piece) : Shape :=
  .ofPieces starts (.seq [lead, .blanks]) .identifier (.seq [.blanks, .arrow])

/-- May a bare parameter follow this character? -/
def mayPrecedeBare (c : Char) : Bool :=
  ['=', '(', ',', '[', '\x7b', '?', '>'].contains c

/-- A bare parameter and its arrow, at the start of a line, after a punctuation mark, or after the
word `return` or `async`. -/
def bareArrowShape : Shape :=
  (bareParameterShape Shape.atLineStart .nothing).orElse <|
  (bareParameterShape Shape.anywhere (.one mayPrecedeBare)).orElse <|
  (bareParameterShape Shape.atWordStart (.word "return")).orElse <|
  bareParameterShape Shape.atWordStart (.word "async")

/-- The list behind a head that ends with its opening parenthesis; what is shown starts at byte
`shownFrom`. -/
def listAfterHead? (t : Text) (shownFrom : Nat) (o : Occurrence) : Option ParameterList := do
  let opened := o.stop - 1
  let closed ← closingParen t opened
  return ⟨⟨shownFrom, closed + 1⟩, ⟨opened + 1, closed⟩⟩

/-- The parameter lists of functions. -/
def functionLists (t : Text) : List ParameterList :=
  (occurrences functionHeadShape t).filterMap fun o => listAfterHead? t o.start o

/-- The parameter lists of methods: a head whose list is followed by a body. -/
def methodLists (t : Text) : List ParameterList :=
  (occurrences methodHeadShape t).filterMap fun o =>
    if isCallableName o.found.name then
      (listAfterHead? t o.nameStart o).filter fun l => hasBody (dropBytes l.head.stop t)
    else none

/-- The parameter lists of arrow functions. -/
def arrowLists (t : Text) : List ParameterList :=
  (occurrences arrowTailShape t).filterMap fun o =>
    (openingParen t o.start).map fun opened => ⟨⟨opened, o.stop⟩, ⟨opened + 1, o.start⟩⟩

/-- Every parameter list of a text. -/
def parameterLists (t : Text) : List ParameterList :=
  functionLists t ++ methodLists t ++ arrowLists t

/-! ## Segments -/

/-- Bracket depth after one more character. An arrow is no closing bracket, and the depth never
falls below zero. -/
def depthAfter (depth : Nat) (previous : Option Char) (c : Char) : Nat :=
  if c = '(' ∨ c = '[' ∨ c = '\x7b' ∨ c = '<' then depth + 1
  else if c = '>' ∧ previous = some '=' then depth
  else if c = ')' ∨ c = ']' ∨ c = '\x7d' ∨ c = '>' then depth - 1
  else depth

/-- Cuts a text at the commas of depth zero. -/
def cutAtCommas (depth : Nat) (previous : Option Char) : Text → List Text
  | [] => [[]]
  | c :: t =>
    if c = ',' ∧ depth = 0 then [] :: cutAtCommas depth (some c) t
    else
      match cutAtCommas (depthAfter depth previous c) (some c) t with
      | [] => [[c]]
      | s :: ss => (c :: s) :: ss

/-- A part of a parameter list. -/
structure Segment where
  /-- Byte offset in the list. -/
  start : Nat
  text : Text
  deriving DecidableEq, Repr

/-- Parts with the offsets they have when a comma stands between any two. -/
def withStarts (start : Nat) : List Text → List Segment
  | [] => []
  | s :: ss => ⟨start, s⟩ :: withStarts (start + s.size + 1) ss

/-- The segments of a parameter list. -/
def segments (list : Text) : List Segment :=
  withStarts 0 (cutAtCommas 0 none list)

/-- Words that may stand before the name of a parameter. -/
def parameterModifiers : List String :=
  ["public", "private", "protected", "readonly", "override"]

/-- What is left after rest marks and modifiers that blanks follow. The fuel bounds their number. -/
def skipParameterModifiers : Nat → Text → Text
  | 0, t => t
  | fuel + 1, t =>
    match (Piece.word "...").take t with
    | some (_, rest) => skipParameterModifiers fuel rest
    | none =>
      match (Piece.seq [.identifier, .blanks1]).take t with
      | none => t
      | some (_, rest) =>
        if parameterModifiers.contains (String.ofList (t.takeWhile isIdent)) then
          skipParameterModifiers fuel rest
        else t

/-- The name that a segment declares, with its byte offset in the segment. -/
def parameterName? (segment : Text) : Option (Nat × Text) :=
  let rest := skipParameterModifiers segment.length (trimStart segment)
  let name := rest.takeWhile isIdent
  if name = [] ∨ name = "this".toList then none else some (segment.size - rest.size, name)

/-! ## Declarations -/

/-- The line that holds a byte, without its line feed. -/
def lineAround (t : Text) (offset : Nat) : Text :=
  ((takeBytes offset t).reverse.takeWhile (· ≠ '\n')).reverse ++
    (dropBytes offset t).takeWhile (· ≠ '\n')

/-- What is shown with a parameter: the head if it fits on one line, else the parameter's line. -/
def shownWith (t head : Text) (offset : Nat) : Text :=
  if '\n' ∈ head then trim (lineAround t offset) else trim head

/-- The parameters of a list. -/
def listDeclarations (t : Text) (l : ParameterList) : List Declaration :=
  let head := t.slice l.head
  (segments (t.slice l.list)).filterMap fun s =>
    (parameterName? s.text).map fun (position, name) =>
      let offset := l.list.start + s.start + position
      ⟨name, shownWith t head offset, offset⟩

/-- The parameters declared in a text. -/
def parameterDeclarations (t : Text) : List Declaration :=
  Declaration.inOrder <|
    (parameterLists t).flatMap (listDeclarations t) ++ declarationsOf bareArrowShape t

end NamingLint
