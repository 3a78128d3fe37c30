import NamingLint.Declaration.Shape

/-!
# NamingLint — class properties

* `fieldShape` — a field with at least one modifier, at the start of a line, up to its semicolon;
* `assignmentShape` — an assignment to a member of `this`.

Each name counts once per text, where it occurs first.
-/

namespace NamingLint

/-- Words that may stand before the name of a field. -/
def fieldModifiers : List String :=
  ["public", "private", "protected", "static", "readonly", "declare", "override"]

/-- Takes what may follow the name of a field: a mark, a type, a value, and the semicolon. -/
def Piece.fieldTail : Piece :=
  seq [blanks, optional (one fun c => c = '?' || c = '!'), blanks,
    optional (ascription ['=', ';', '(', '\n']), optional (seq [char '=', upTo [';', '\n']]),
    char ';']

/-- `private readonly NAME?: Type = value;` at the start of a line. -/
def fieldShape : Shape :=
  .ofPieces Shape.atLineStart (.seq [.indent, .modifiers fieldModifiers 1]) .identifier .fieldTail

/-- `this.NAME = ` and one more character, which makes it neither a comparison nor an arrow. -/
def assignmentShape : Shape :=
  .ofPieces Shape.atWordStart (.word "this.") .identifier <|
    .seq [.blanks, .char '=', .one fun c => c ≠ '=' && c ≠ '>']

/-- Every match of a field or an assignment, by offset. -/
def propertyMatches (t : Text) : List Declaration :=
  Declaration.inOrder (declarationsOf fieldShape t ++ declarationsOf assignmentShape t)

/-- Keeps the first declaration of each name that is not yet in `seen`. -/
def firstOfEachName (seen : List Text) : List Declaration → List Declaration
  | [] => []
  | d :: ds =>
    if seen.contains d.name then firstOfEachName seen ds
    else d :: firstOfEachName (d.name :: seen) ds

/-- The properties declared in a text. -/
def propertyDeclarations (t : Text) : List Declaration :=
  firstOfEachName [] (propertyMatches t)

end NamingLint
