import NamingLint.Declaration.Shape

/-!
# NamingLint — classes, interfaces, enums and type aliases

Each is introduced by a word of its own, followed by the name. A type alias also needs its equals
sign, after optional type parameters.
-/

namespace NamingLint

/-- A word of its own, blanks, a name, and a tail. -/
def introducedShape (word : String) (tail : Piece) : Shape :=
  .ofPieces Shape.atWordStart (.seq [.word word, .blanks1]) .identifier tail

/-- How many characters of a text stand up to and including the last closing angle bracket. -/
def lengthToLastBracket (t : Text) : Nat :=
  t.length - (t.reverse.takeWhile (· ≠ '>')).length

/-- Takes everything up to and including the last closing angle bracket that stands before an equals
sign, on one line. -/
def Piece.throughLastBracket : Piece where
  take t :=
    let inside := t.takeWhile fun c => c ≠ '=' && c ≠ '\n'
    let n := lengthToLastBracket inside
    if '>' ∈ inside then some (t.take n, t.drop n) else none
  append_eq h := by
    dsimp only at h
    split at h
    · simp only [Option.some.injEq, Prod.mk.injEq] at h
      rw [← h.1, ← h.2, List.take_append_drop]
    · simp at h

/-- `type NAME<T> =` -/
def typeAliasShape : Shape :=
  introducedShape "type" <|
    .seq [.blanks, .optional (.seq [.char '<', .throughLastBracket]), .blanks, .char '=']

/-- The classes declared in a text. -/
def classDeclarations (t : Text) : List Declaration :=
  Declaration.inOrder (declarationsOf (introducedShape "class" .nothing) t)

/-- The interfaces declared in a text. -/
def interfaceDeclarations (t : Text) : List Declaration :=
  Declaration.inOrder (declarationsOf (introducedShape "interface" .nothing) t)

/-- The enums declared in a text. -/
def enumDeclarations (t : Text) : List Declaration :=
  Declaration.inOrder (declarationsOf (introducedShape "enum" .nothing) t)

/-- The type aliases declared in a text. -/
def typeAliasDeclarations (t : Text) : List Declaration :=
  Declaration.inOrder (declarationsOf typeAliasShape t)

end NamingLint
