import NamingLint.Json.Printer
import NamingLint.Json.Reader

/-!
# NamingLint — codecs

A codec is a type's JSON form: how its values are written, and how they are read.

* `Codec.count`, `Codec.string`, `Codec.flag`, `Codec.word` — scalars.
* `Codec.list`, `Codec.orNull` — built over another codec.
* `Codec.via` — the form of a type that corresponds to another one.
-/

namespace NamingLint.Json

/-- How values of a type are written and read. -/
structure Codec (α : Type) where
  write : α → Value
  read : Reader α

namespace Codec

variable {α β : Type}

/-- Reads a whole text. -/
def parse (c : Codec α) (t : Text) : Except Fault α :=
  readAll c.read t

/-- The form of `β` that the form of `α` gives. -/
def via (c : Codec α) (toForm : β → α) (ofForm : α → β) : Codec β where
  write b := c.write (toForm b)
  read t := (c.read t).map fun (a, rest) => (ofForm a, rest)

/-! ## Counters -/

/-- Accepts natural numbers only. -/
def readCount (t : Text) : Except Fault (Nat × Text) :=
  let judge : Number × Text → Except Fault (Nat × Text)
    | (.int (.ofNat n), rest) => .ok (n, rest)
    | (.int n, rest) => .error (.before (.wrongValue (.number (.int n)) "usize") rest)
    | (.double d, rest) => .error (.before (.wrongType (.number (.double d)) "usize") rest)
  match skipBlanks t with
  | [] => .error (.atNext .endInValue [])
  | c :: rest =>
    if c = '-' then (readNumber true rest).bind judge
    else if c.isDigit then (readNumber false (c :: rest)).bind judge
    else .error (mismatch "usize" (c :: rest))

/-- The form of a counter. -/
def count : Codec Nat where
  write := Value.nat
  read := readCount

/-! ## Strings and switches -/

/-- Reads a string; `wanted` says what it is for. -/
def readText (wanted : String) : Reader Text := fun t =>
  match skipBlanks t with
  | [] => .error (.atNext .endInValue [])
  | '"' :: rest => readString rest
  | other => .error (mismatch wanted other)

/-- The form of a string; `wanted` is what a fault says about it. -/
def text (wanted : String) : Codec String where
  write := Value.string
  read t := (readText wanted t).map fun (s, rest) => (String.ofList s, rest)

/-- The form of a string. -/
def string : Codec String :=
  text "a string"

/-- The form of a switch. -/
def flag : Codec Bool where
  write := Value.bool
  read t :=
    match skipBlanks t with
    | [] => .error (.atNext .endInValue [])
    | c :: rest =>
      if c = 't' then (expectWord "rue".toList rest).map (true, ·)
      else if c = 'f' then (expectWord "alse".toList rest).map (false, ·)
      else .error (mismatch "a boolean" (c :: rest))

/-! ## Words -/

/-- Passes `null`, as the value after a word that is written as a key. -/
def readNothing (t : Text) : Except Fault Text :=
  match skipBlanks t with
  | [] => .error (.atNext .endInValue [])
  | 'n' :: rest => expectWord "ull".toList rest
  | other => .error (mismatch "unit" other)

/-- Looks a word up among the choices. -/
def choose (choices : List (String × α)) (word rest : Text) : Except Fault (α × Text) :=
  match choices.find? fun c => c.1.toList = word with
  | some c => .ok (c.2, rest)
  | none => .error (.before (.unknownWord word (choices.map Prod.fst)) rest)

/-- Reads one of the choices: a string, or an object with the word as its key and the value `null`. -/
def readWord (choices : List (String × α)) : Reader α := fun t =>
  match skipBlanks t with
  | [] => .error (.atNext .endInValue [])
  | '"' :: rest => do
    let (word, rest) ← readString rest
    choose choices word rest
  | '\x7b' :: rest => do
    let (word, rest) ← readText "variant identifier" rest
    let (a, rest) ← choose choices word rest
    let rest ← readColon rest
    let rest ← readNothing rest
    match skipBlanks rest with
    | [] => .error (.before .endInObject [])
    | '\x7d' :: rest => .ok (a, rest)
    | other => .error (.before .wantedValue other)
  | other => .error (.atNext .wantedValue other)

/-- The form of a type with a word for each value; several choices may stand for one value. -/
def word (label : α → String) (choices : List (String × α)) : Codec α where
  write a := .string (label a)
  read := readWord choices

/-- The words of a type and the values they stand for. -/
def labelled (label : α → String) (all : List α) : List (String × α) :=
  all.map fun a => (label a, a)

/-! ## Built over other codecs -/

/-- The form of a list. -/
def list (c : Codec α) : Codec (List α) where
  write as := .array (as.map c.write)
  read t :=
    match skipBlanks t with
    | [] => .error (.atNext .endInValue [])
    | '[' :: rest => readItems c.read rest
    | other => .error (mismatch "a sequence" other)

/-- The form of a value that may be lacking, written as `null`. -/
def orNull (c : Codec α) : Codec (Option α) where
  write
    | none => .null
    | some a => c.write a
  read t :=
    match skipBlanks t with
    | 'n' :: rest => (expectWord "ull".toList rest).map (none, ·)
    | other => (c.read other).map fun (a, rest) => (some a, rest)

end Codec

end NamingLint.Json
