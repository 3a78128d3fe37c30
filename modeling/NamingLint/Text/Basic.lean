/-!
# NamingLint — text

A text is its list of characters; offsets into it count bytes of the UTF-8 form.

* `Text.size` — length in bytes.
* `Span`, `Text.slice` — a range of bytes and the characters in it.
* `Text.lines` — the lines of a text: a line feed ends a line, a carriage return right before it
  belongs to the ending.
* `Text.lineAt` — the number of the line that holds a byte.
* `Text.contains` — contiguous occurrence.
-/

namespace NamingLint

/-- A text, as the list of its characters. -/
abbrev Text := List Char

/-- A range of bytes, `stop` excluded. -/
structure Span where
  /-- First byte of the range. -/
  start : Nat
  /-- First byte after the range. -/
  stop : Nat
  deriving DecidableEq, Repr

namespace Text

/-! ## Bytes -/

/-- Length of the UTF-8 form in bytes. -/
def size : Text → Nat
  | [] => 0
  | c :: t => c.utf8Size + size t

@[simp] theorem size_nil : size [] = 0 := rfl

@[simp] theorem size_cons (c : Char) (t : Text) : size (c :: t) = c.utf8Size + size t := rfl

@[simp] theorem size_append (t u : Text) : size (t ++ u) = size t + size u := by
  induction t with
  | nil => simp
  | cons c t ih => simp [ih, Nat.add_assoc]

/-- What is left after the first `n` bytes; a character that straddles the cut is dropped. -/
def dropBytes : Nat → Text → Text
  | 0, t => t
  | _ + 1, [] => []
  | n + 1, c :: t => dropBytes (n + 1 - c.utf8Size) t

/-- The first `n` bytes; a character that straddles the cut is kept whole. -/
def takeBytes : Nat → Text → Text
  | 0, _ => []
  | _ + 1, [] => []
  | n + 1, c :: t => c :: takeBytes (n + 1 - c.utf8Size) t

/-- The characters of a byte range. -/
def slice (t : Text) (s : Span) : Text :=
  takeBytes (s.stop - s.start) (dropBytes s.start t)

/-! ## Lines -/

/-- Splits at every `sep`; there is always one more piece than there are separators. -/
def splitOn (sep : Char) : Text → List Text
  | [] => [[]]
  | c :: t =>
    if c = sep then [] :: splitOn sep t
    else
      match splitOn sep t with
      | [] => [[c]]
      | p :: ps => (c :: p) :: ps

/-- The text without a carriage return at its end. -/
def dropReturn (t : Text) : Text :=
  if t.getLast? = some '\r' then t.dropLast else t

/-- The pieces between line feeds as lines: each piece but the last lost its line feed, and loses a
carriage return before it; an empty last piece is no line. -/
def linesOfPieces : List Text → List Text
  | [] => []
  | [p] => if p.isEmpty then [] else [p]
  | p :: q :: ps => dropReturn p :: linesOfPieces (q :: ps)

/-- The lines of a text, without their endings. -/
def lines (t : Text) : List Text :=
  linesOfPieces (splitOn '\n' t)

/-- How many line feeds begin before byte `n`. -/
def feedsBefore : Nat → Text → Nat
  | 0, _ => 0
  | _ + 1, [] => 0
  | n + 1, c :: t => (if c = '\n' then 1 else 0) + feedsBefore (n + 1 - c.utf8Size) t

/-- The number, from 1, of the line that holds byte `offset`. -/
def lineAt (t : Text) (offset : Nat) : Nat :=
  1 + feedsBefore offset t

/-! ## Occurrence -/

/-- Does `needle` stand somewhere in `t`, in one piece? -/
def contains (needle : Text) : Text → Bool
  | [] => needle.isEmpty
  | c :: t => needle.isPrefixOf (c :: t) || contains needle t

end Text

end NamingLint
