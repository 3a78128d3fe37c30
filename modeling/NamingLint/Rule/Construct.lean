import NamingLint.Declaration.Shape
import NamingLint.Marker
import NamingLint.Rule.Basic

/-!
# NamingLint — the rule against `any`

The construct rule that comes with the library forbids the type `any`.
-/

namespace NamingLint.ConstructRule

/-- Takes the word `any` if a word ends there. -/
def anyWord : Piece :=
  .seq [.word "any", .wordEnd]

/-- May the word `any` follow this character as a type? -/
def mayPrecedeAny (c : Char) : Bool :=
  !(Text.isIdent c || c = '.')

/-- The word `any` at the start of a text or after a character that is neither part of an identifier
nor a dot; that character belongs to the match. -/
def anyShape : Shape :=
  (Shape.ofPieces Shape.atTextStart .nothing anyWord .nothing).orElse <|
  Shape.ofPieces Shape.anywhere (.one mayPrecedeAny) anyWord .nothing

/-- Byte offsets of the type `any` in a stripped text. -/
def anyOffsets (t : Text) : List Nat :=
  (occurrences anyShape t).map Occurrence.nameStart

/-- May files of this type hold the type `any`? -/
def mayHoldAny (type : FileType) : Bool :=
  type = .typescript || type = .javascript

/-- The finding of a type `any` at an offset of a file. -/
def anyFinding (f : SourceFile) (offset : Nat) : Finding :=
  ⟨"no-any", "Unexpected `any`; use a specific type or `unknown`", ⟨f.path, f.lineAt offset⟩⟩

/-- Forbids the type `any`. -/
def noAny : ConstructRule where
  name := "no-any"
  description := "Forbids the `any` type"
  isEnabled c := c.options.noAny
  marker := some Marker.any.word
  check f := if mayHoldAny f.type then (anyOffsets f.stripped).map (anyFinding f) else []

end NamingLint.ConstructRule
