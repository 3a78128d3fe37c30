import NamingLint.Declaration.Binding

/-!
# NamingLint — functions and methods

Three shapes declare something callable:

* `namedFunctionShape` — `function NAME(`, also with `*` and type parameters;
* `boundFunctionShape` — a binding whose value is an arrow function or a function expression;
* `methodShape` — a method with its parameter list and opening brace, at the start of a line.

A method called like a control word, or `constructor`, is none.
-/

namespace NamingLint

/-! ## Words -/

/-- Words that may stand before the name of a method. -/
def methodModifiers : List String :=
  ["public", "private", "protected", "static", "async", "override", "abstract", "get", "set"]

/-- Words that may stand before an opening parenthesis and declare nothing. -/
def controlWords : List String :=
  ["if", "for", "while", "switch", "catch", "with", "function", "return", "else", "do", "new",
   "typeof", "super", "await", "yield", "throw", "delete", "void", "in", "of"]

/-- Is this the name of something callable, and no control word? -/
def isCallableName (name : Text) : Bool :=
  !controlWords.contains (String.ofList name)

/-! ## Function values -/

namespace Piece

/-- Takes a parameter list on one line, an optional type, and the arrow. -/
def listAndArrow : Piece :=
  seq [char '(', upTo [')', '\n'], char ')', blanks, optional (ascription ['=', '\n']), arrow]

/-- Takes a single bare parameter and the arrow. -/
def bareAndArrow : Piece :=
  seq [identifier, blanks, arrow]

/-- Takes the start of a function value: a parameter list with an arrow, a bare parameter with an
arrow, or the word `function`. -/
def functionValue : Piece :=
  either listAndArrow (either bareAndArrow (seq [word "function", wordEnd]))

/-- Takes the start of a function value that may be marked as asynchronous. The word `async` is a
mark if a function value follows it, and else may itself be a bare parameter. -/
def asyncValue : Piece :=
  either (seq [word "async", blanks1, functionValue]) functionValue

/-- Takes what stands before the name of a method: indentation and modifiers. -/
def methodLead : Piece :=
  seq [indent, modifiers methodModifiers 0]

end Piece

/-! ## Shapes -/

/-- `function* NAME<T>(` -/
def namedFunctionShape : Shape :=
  .ofPieces Shape.atWordStart .functionWord .identifier .openList

/-- `const NAME: Type = async (…) =>` -/
def boundFunctionShape : Shape :=
  .ofPieces Shape.atWordStart .bindingWord .identifier <|
    .seq [.blanks, .optional (.ascription ['=', '\n']), .char '=', .blanks, .asyncValue]

/-- `static async NAME<T>(…): Type {` at the start of a line. -/
def methodShape : Shape :=
  .ofPieces Shape.atLineStart .methodLead .identifier <|
    .seq [.openList, .upTo ['(', ')', '\n'], .char ')', .blanks,
      .optional (.ascription ['\x7b', ';', '\n']), .char '\x7b']

/-! ## Declarations -/

/-- The methods declared in a text. -/
def methodDeclarations (t : Text) : List Declaration :=
  (declarationsOf methodShape t).filter fun d =>
    d.name ≠ "constructor".toList && isCallableName d.name

/-- The functions and methods declared in a text. A name that several shapes find counts once, with
the text of the first of them. -/
def functionDeclarations (t : Text) : List Declaration :=
  Declaration.inOrder <|
    declarationsOf namedFunctionShape t ++ declarationsOf boundFunctionShape t ++
      methodDeclarations t

end NamingLint
