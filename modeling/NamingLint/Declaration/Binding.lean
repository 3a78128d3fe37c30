import NamingLint.Declaration.Shape

/-!
# NamingLint — variable bindings

`let`, `const` or `var`, a name, an optional type, and a value that ends in a semicolon on the line
it starts on. Only the first name of a statement counts.
-/

namespace NamingLint

/-- The words that introduce a binding. -/
def bindingWords : List String :=
  ["let", "const", "var"]

/-- Takes the word of a binding and the blanks after it. -/
def Piece.bindingWord : Piece :=
  seq [anyOf bindingWords, blanks1]

/-- `let NAME: Type = value;` -/
def bindingShape : Shape :=
  .ofPieces Shape.atWordStart .bindingWord .identifier <|
    .seq [.blanks, .optional (.ascription ['=', ';', '\n']), .char '=', .upTo [';', '\n'],
      .char ';']

/-- The variables declared in a text. -/
def variableDeclarations (t : Text) : List Declaration :=
  Declaration.inOrder (declarationsOf bindingShape t)

end NamingLint
