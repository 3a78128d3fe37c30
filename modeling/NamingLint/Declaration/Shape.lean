import NamingLint.Declaration.Piece

/-!
# NamingLint — shapes of declarations

A shape is one way to write a declaration. At a place of a text it either fails or finds the declared
name together with the text around it that belongs to the declaration.

* `Match` — the text before the name, the name, and the text after it.
* `Shape` — finds matches; a match always stands at the front of the text.
* `occurrences` — the matches of a shape, from left to right, none overlapping an earlier one.
* `Declaration`, `inOrder` — declared names by offset, each offset once.
-/

namespace NamingLint

/-! ## Matches -/

/-- A match of a shape: a part of a text with a name inside. -/
@[ext] structure Match where
  /-- What stands before the name. -/
  lead : Text
  name : Text
  /-- What stands after the name. -/
  tail : Text
  deriving DecidableEq, Repr

namespace Match

/-- The whole text of the match. -/
def text (m : Match) : Text :=
  m.lead ++ m.name ++ m.tail

end Match

/-- A way to write a declaration. -/
structure Shape where
  /-- The match at a place, given the character before it and the text from there on. -/
  find : Option Char → Text → Option Match
  isPrefix : ∀ {previous : Option Char} {t : Text} {m : Match},
    find previous t = some m → m.text <+: t

namespace Shape

/-- A lead, a name and a tail, at places that the character before them tells. -/
def ofPieces (starts : Option Char → Bool) (lead name tail : Piece) : Shape where
  find previous t :=
    if starts previous then
      match lead.take t with
      | none => none
      | some (l, t) =>
        match name.take t with
        | none => none
        | some (n, t) =>
          match tail.take t with
          | none => none
          | some (r, _) => some ⟨l, n, r⟩
    else none
  isPrefix h := by
    split at h
    · split at h
      · simp at h
      · rename_i hl
        split at h
        · simp at h
        · rename_i hn
          split at h
          · simp at h
          · rename_i rest ht
            cases h
            refine ⟨rest, ?_⟩
            rw [Match.text, List.append_assoc, List.append_assoc, tail.append_eq ht,
              name.append_eq hn, lead.append_eq hl]
    · simp at h

/-- One shape where it finds something, and else the other. -/
def orElse (s r : Shape) : Shape where
  find previous t :=
    match s.find previous t with
    | some m => some m
    | none => r.find previous t
  isPrefix h := by
    split at h
    · rename_i hs
      cases h
      exact s.isPrefix hs
    · exact r.isPrefix h

/-! ## Starts -/

/-- Everywhere. -/
def anywhere (_ : Option Char) : Bool :=
  true

/-- At the start of the text. -/
def atTextStart (previous : Option Char) : Bool :=
  previous.isNone

/-- At the start of a line. -/
def atLineStart (previous : Option Char) : Bool :=
  previous = none || previous = some '\n'

/-- Where no word goes on. -/
def atWordStart (previous : Option Char) : Bool :=
  !previous.any Text.isWord

end Shape

/-! ## Occurrences -/

/-- A match at a byte offset of a text. -/
structure Occurrence where
  /-- Offset of the first byte of the match. -/
  start : Nat
  found : Match
  deriving DecidableEq, Repr

namespace Occurrence

/-- Offset of the first byte of the name. -/
def nameStart (o : Occurrence) : Nat :=
  o.start + o.found.lead.size

/-- Offset of the first byte after the match. -/
def stop (o : Occurrence) : Nat :=
  o.start + o.found.text.size

end Occurrence

/-- The matches of a shape from a place on. `skip` characters still belong to the last match. -/
def occurrencesFrom (shape : Shape) : Nat → Option Char → Nat → Text → List Occurrence
  | _, _, _, [] => []
  | skip + 1, _, offset, c :: t => occurrencesFrom shape skip (some c) (offset + c.utf8Size) t
  | 0, previous, offset, c :: t =>
    match shape.find previous (c :: t) with
    | none => occurrencesFrom shape 0 (some c) (offset + c.utf8Size) t
    | some m =>
      ⟨offset, m⟩ ::
        occurrencesFrom shape (m.text.length - 1) (some c) (offset + c.utf8Size) t

/-- The matches of a shape in a text: the leftmost one first, then the leftmost one that starts
after its end, and so on. -/
def occurrences (shape : Shape) (t : Text) : List Occurrence :=
  occurrencesFrom shape 0 none 0 t

/-! ## Declarations -/

/-- A declared name and where it stands. -/
@[ext] structure Declaration where
  name : Text
  /-- The text of the declaration, as far as its shape goes. -/
  matched : Text
  /-- Byte offset of the name. -/
  offset : Nat
  deriving DecidableEq, Repr

namespace Declaration

/-- The declaration that a match stands for. -/
def ofOccurrence (o : Occurrence) : Declaration :=
  ⟨o.found.name, o.found.text, o.nameStart⟩

/-- Puts a declaration into a list by offset; it replaces one at the same offset. -/
def place (d : Declaration) : List Declaration → List Declaration
  | [] => [d]
  | e :: es =>
    if d.offset < e.offset then d :: e :: es
    else if d.offset = e.offset then d :: es
    else e :: place d es

/-- The declarations by offset. Of several at one offset, the first in the list counts. -/
def inOrder : List Declaration → List Declaration
  | [] => []
  | d :: ds => place d (inOrder ds)

end Declaration

/-- The declarations that the matches of a shape stand for. -/
def declarationsOf (shape : Shape) (t : Text) : List Declaration :=
  (occurrences shape t).map Declaration.ofOccurrence

end NamingLint
