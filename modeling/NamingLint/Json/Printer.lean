import NamingLint.Json.Value
import NamingLint.Text.Basic

/-!
# NamingLint — written JSON

* `escape` — a character inside a string: quotes, backslashes and control characters are escaped,
  everything else stands for itself.
* `Layout` — on one line without blanks, or one item a line with two blanks of indentation a level.
* `Value.write` — the text of a value in a layout.
-/

namespace NamingLint.Json

/-! ## Strings -/

/-- The digit of a number below sixteen. -/
def hexDigit (n : Nat) : Char :=
  Nat.digitChar n

/-- The form of a character inside a string. -/
def escape (c : Char) : Text :=
  if c = '"' then ['\\', '"']
  else if c = '\\' then ['\\', '\\']
  else if c = '\x08' then ['\\', 'b']
  else if c = '\x0c' then ['\\', 'f']
  else if c = '\n' then ['\\', 'n']
  else if c = '\r' then ['\\', 'r']
  else if c = '\t' then ['\\', 't']
  else if c.toNat < 0x20 then
    ['\\', 'u', '0', '0', hexDigit (c.toNat / 16), hexDigit (c.toNat % 16)]
  else [c]

/-- A string between its quotes. -/
def writeString (s : String) : Text :=
  '"' :: s.toList.flatMap escape ++ ['"']

/-! ## Layouts -/

/-- How the items of arrays and objects are set. -/
inductive Layout where
  /-- Everything on one line, without blanks. -/
  | compact
  /-- Each item on a line of its own. -/
  | pretty
  deriving DecidableEq, Repr

namespace Layout

/-- What stands before an item or a closing bracket at a level of nesting. -/
def lineBreak : Layout → Nat → Text
  | compact, _ => []
  | pretty, level => '\n' :: List.replicate (2 * level) ' '

/-- What stands between a key and its value. -/
def colon : Layout → Text
  | compact => [':']
  | pretty => [':', ' ']

end Layout

/-! ## Values -/

namespace Value

mutual

/-- The text of a value at a level of nesting. -/
def writeAt (l : Layout) (level : Nat) : Value → Text
  | .null => "null".toList
  | .bool true => "true".toList
  | .bool false => "false".toList
  | .number n => n.text
  | .string s => writeString s
  | .array [] => ['[', ']']
  | .array (v :: vs) =>
    '[' :: l.lineBreak (level + 1) ++ writeAt l (level + 1) v ++ writeItems l (level + 1) vs ++
      l.lineBreak level ++ [']']
  | .object [] => ['\x7b', '\x7d']
  | .object ((k, v) :: ms) =>
    '\x7b' :: l.lineBreak (level + 1) ++ writeString k ++ l.colon ++ writeAt l (level + 1) v ++
      writeMembers l (level + 1) ms ++ l.lineBreak level ++ ['\x7d']

/-- The items after the first, each with the comma before it. -/
def writeItems (l : Layout) (level : Nat) : List Value → Text
  | [] => []
  | v :: vs => ',' :: l.lineBreak level ++ writeAt l level v ++ writeItems l level vs

/-- The members after the first, each with the comma before it. -/
def writeMembers (l : Layout) (level : Nat) : List (String × Value) → Text
  | [] => []
  | (k, v) :: ms =>
    ',' :: l.lineBreak level ++ writeString k ++ l.colon ++ writeAt l level v ++
      writeMembers l level ms

end

/-- The text of a value. -/
def write (l : Layout) (v : Value) : Text :=
  writeAt l 0 v

/-- The text on one line. -/
def compact (v : Value) : String :=
  String.ofList (v.write .compact)

/-- The text with one item a line. -/
def pretty (v : Value) : String :=
  String.ofList (v.write .pretty)

end Value

end NamingLint.Json
