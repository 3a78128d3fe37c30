import NamingLint.Text.Blank
import NamingLint.Text.Word

/-!
# NamingLint — pieces of a text

A piece is a way to take something off the front of a text. What is taken and what is left always
make up the text again, so this is part of the type.

Whatever a piece may take, it takes as much of it as there is. The shapes built from pieces are laid
out so that taking less could never help.

* `Piece.char`, `Piece.word`, `Piece.many`, `Piece.many1`, … — single pieces.
* `Piece.seq`, `Piece.either`, `Piece.optional` — pieces built from others.
* `Piece.blanks`, `Piece.identifier`, `Piece.ascription`, … — the parts of declarations.
-/

namespace NamingLint

/-- A way to take something off the front of a text. -/
structure Piece where
  /-- What is taken, and what is left. -/
  take : Text → Option (Text × Text)
  append_eq : ∀ {t a r : Text}, take t = some (a, r) → a ++ r = t

namespace Piece

/-! ## Single pieces -/

/-- Takes nothing. -/
def nothing : Piece where
  take t := some ([], t)
  append_eq h := by simp_all

/-- Takes one character of a class. -/
def one (p : Char → Bool) : Piece where
  take
    | [] => none
    | c :: t => if p c then some ([c], t) else none
  append_eq {t _ _} h := by
    cases t with
    | nil => simp at h
    | cons c t =>
      dsimp only at h
      split at h
      · cases h
        rfl
      · simp at h

/-- Takes a given character. -/
def char (c : Char) : Piece :=
  one (· = c)

/-- Takes all characters of a class that stand in front. -/
def many (p : Char → Bool) : Piece where
  take t := some (t.takeWhile p, t.dropWhile p)
  append_eq h := by
    simp only [Option.some.injEq, Prod.mk.injEq] at h
    rw [← h.1, ← h.2, List.takeWhile_append_dropWhile]

/-- Takes all characters of a class that stand in front, at least one. -/
def many1 (p : Char → Bool) : Piece where
  take t := if t.head?.any p then some (t.takeWhile p, t.dropWhile p) else none
  append_eq h := by
    split at h
    · simp only [Option.some.injEq, Prod.mk.injEq] at h
      rw [← h.1, ← h.2, List.takeWhile_append_dropWhile]
    · simp at h

/-- Takes everything up to the first of some characters. -/
def upTo (stops : List Char) : Piece :=
  many fun c => !stops.contains c

/-- Takes a given word. -/
def word (w : String) : Piece where
  take t := if w.toList.isPrefixOf t then some (t.take w.toList.length, t.drop w.toList.length)
    else none
  append_eq h := by
    split at h
    · simp only [Option.some.injEq, Prod.mk.injEq] at h
      rw [← h.1, ← h.2, List.take_append_drop]
    · simp at h

/-- Takes nothing, where no word goes on. -/
def wordEnd : Piece where
  take t := if t.head?.any Text.isWord then none else some ([], t)
  append_eq h := by
    split at h <;> simp_all

/-! ## Pieces built from others -/

/-- Takes one piece if it can be taken, and else the other. -/
def either (p q : Piece) : Piece where
  take t :=
    match p.take t with
    | some taken => some taken
    | none => q.take t
  append_eq {t a r} h := by
    split at h
    · rename_i taken hp
      cases h
      exact p.append_eq hp
    · exact q.append_eq h

/-- Takes a piece if it can be taken. -/
def optional (p : Piece) : Piece :=
  either p nothing

/-- Takes one piece after another. -/
def andThen (p q : Piece) : Piece where
  take t :=
    match p.take t with
    | none => none
    | some (a, rest) =>
      match q.take rest with
      | none => none
      | some (b, rest) => some (a ++ b, rest)
  append_eq {t a r} h := by
    split at h
    · simp at h
    · rename_i a₁ r₁ hp
      split at h
      · simp at h
      · rename_i a₂ r₂ hq
        cases h
        rw [List.append_assoc, q.append_eq hq, p.append_eq hp]

/-- Takes pieces one after another. -/
def seq : List Piece → Piece
  | [] => nothing
  | [p] => p
  | p :: ps => p.andThen (seq ps)

/-- Takes the first of some words that stands in front. -/
def anyOf : List String → Piece
  | [] => one fun _ => false
  | w :: ws => either (word w) (anyOf ws)

/-! ## Parts of declarations -/

/-- Takes blanks, if there are any. -/
def blanks : Piece :=
  many Text.isBlank

/-- Takes blanks, at least one. -/
def blanks1 : Piece :=
  many1 Text.isBlank

/-- Takes an identifier. -/
def identifier : Piece :=
  many1 Text.isIdent

/-- Takes the indentation of a line. -/
def indent : Piece :=
  many fun c => c = ' ' || c = '\t'

/-- Takes an arrow. -/
def arrow : Piece :=
  word "=>"

/-- Takes a type ascription: a colon and everything up to one of the stops. -/
def ascription (stops : List Char) : Piece :=
  seq [char ':', upTo stops]

/-- Takes type parameters in angle brackets on one line, up to the first closing bracket. -/
def typeParameters : Piece :=
  seq [char '<', upTo ['>', '\n'], char '>']

/-- Takes optional type parameters and the opening parenthesis of a parameter list. -/
def openList : Piece :=
  seq [blanks, optional typeParameters, blanks, char '(']

/-- Takes the word `function`, as a whole word, and an optional star. -/
def functionWord : Piece :=
  seq [word "function", wordEnd, blanks, optional (char '*'), blanks]

end Piece

/-! ## Modifiers -/

/-- A run of modifier words, each with the blanks after it, and what is left after the run. The fuel
bounds the number of words. -/
def modifierRun (words : List String) : Nat → Text → List Text × Text
  | 0, t => ([], t)
  | fuel + 1, t =>
    match (Piece.seq [.identifier, .blanks1]).take t with
    | none => ([], t)
    | some (modifier, rest) =>
      if words.contains (String.ofList (t.takeWhile Text.isIdent)) then
        let (more, stop) := modifierRun words fuel rest
        (modifier :: more, stop)
      else ([], t)

theorem flatten_modifierRun (words : List String) (fuel : Nat) (t : Text) :
    (modifierRun words fuel t).1.flatten ++ (modifierRun words fuel t).2 = t := by
  induction fuel generalizing t with
  | zero => simp [modifierRun]
  | succ fuel ih =>
    rw [modifierRun]
    split
    · simp
    · rename_i modifier rest h
      split
      · simp [ih, Piece.append_eq _ h]
      · simp

/-- The run of modifiers in front of a text. It lies within a stretch of identifiers and blanks. -/
def modifiersOf (words : List String) (t : Text) : List Text × Text :=
  modifierRun words (t.takeWhile fun c => Text.isIdent c || Text.isBlank c).length t

/-- How many modifiers of a run stand before a name: all of them if a name follows the run, and else
all but the last, which is then the name itself. -/
def modifiersBeforeName (run : List Text × Text) : Nat :=
  if run.2.head?.any Text.isIdent then run.1.length else run.1.length - 1

/-- Takes the modifiers before a name, at least the given number of them. -/
def Piece.modifiers (words : List String) (least : Nat) : Piece where
  take t :=
    let run := modifiersOf words t
    let n := modifiersBeforeName run
    if t.head?.any Text.isIdent ∧ least ≤ n then
      some ((run.1.take n).flatten, (run.1.drop n).flatten ++ run.2)
    else none
  append_eq {t a r} h := by
    dsimp only at h
    split at h
    · simp only [Option.some.injEq, Prod.mk.injEq] at h
      rw [← h.1, ← h.2, ← List.append_assoc, ← List.flatten_append, List.take_append_drop,
        modifiersOf, flatten_modifierRun]
    · simp at h

end NamingLint
