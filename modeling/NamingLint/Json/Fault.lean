import NamingLint.Json.Value
import NamingLint.Text.Quoted

/-!
# NamingLint — faults in JSON texts

* `Cause` — what is wrong with a text; `Cause.message` is its wording.
* `Fault` — a cause together with the number of bytes that were still unread when it was seen.
* `Fault.describe` — the message with the line and the column of the fault.
-/

namespace NamingLint.Json

/-- What stands where something else is wanted. -/
inductive Found where
  | null
  | bool (b : Bool)
  | number (n : Number)
  | string (s : Text)
  | sequence
  | map
  deriving DecidableEq, Repr

namespace Found

/-- What was found, in words. -/
def describe : Found → String
  | null => "null"
  | bool b => s!"boolean `{b}`"
  | number (.int n) => s!"integer `{n}`"
  | number (.double d) => s!"floating point `{String.ofList d.text}`"
  | string s => s!"string {String.ofList (Text.quoted s)}"
  | sequence => "sequence"
  | map => "map"

/-- What a value is found to be. -/
def ofValue : Value → Found
  | .null => null
  | .bool b => bool b
  | .number n => number n
  | .string s => string s.toList
  | .array _ => sequence
  | .object _ => map

end Found

/-- What is wrong with a text. -/
inductive Cause where
  | endInValue
  | endInList
  | endInObject
  | endInString
  | wantedColon
  | wantedItemOrEnd
  | wantedMemberOrEnd
  | wantedWord
  | wantedValue
  | wantedKey
  | badEscape
  | badNumber
  | outOfRange
  | controlCharacter
  | loneSurrogate
  | brokenSurrogate
  | trailingComma
  | trailingCharacters
  | tooDeep
  /-- A value of another type than the wanted one. -/
  | wrongType (found : Found) (wanted : String)
  /-- A value of the wanted type that is not admitted. -/
  | wrongValue (found : Found) (wanted : String)
  /-- A list with too few items. -/
  | wrongLength (length : Nat) (wanted : String)
  /-- A word that is none of the choices. -/
  | unknownWord (word : Text) (choices : List String)
  | missingMember (key : String)
  | repeatedMember (key : String)
  deriving DecidableEq, Repr

namespace Cause

/-- The wording of a cause. -/
def message : Cause → String
  | endInValue => "EOF while parsing a value"
  | endInList => "EOF while parsing a list"
  | endInObject => "EOF while parsing an object"
  | endInString => "EOF while parsing a string"
  | wantedColon => "expected `:`"
  | wantedItemOrEnd => "expected `,` or `]`"
  | wantedMemberOrEnd => "expected `,` or `\x7d`"
  | wantedWord => "expected ident"
  | wantedValue => "expected value"
  | wantedKey => "key must be a string"
  | badEscape => "invalid escape"
  | badNumber => "invalid number"
  | outOfRange => "number out of range"
  | controlCharacter => "control character (\\u0000-\\u001F) found while parsing a string"
  | loneSurrogate => "lone leading surrogate in hex escape"
  | brokenSurrogate => "unexpected end of hex escape"
  | trailingComma => "trailing comma"
  | trailingCharacters => "trailing characters"
  | tooDeep => "recursion limit exceeded"
  | wrongType found wanted => s!"invalid type: {found.describe}, expected {wanted}"
  | wrongValue found wanted => s!"invalid value: {found.describe}, expected {wanted}"
  | wrongLength length wanted => s!"invalid length {length}, expected {wanted}"
  | unknownWord word choices =>
    s!"unknown variant `{String.ofList word}`, expected one of " ++
      ", ".intercalate (choices.map fun c => s!"`{c}`")
  | missingMember key => s!"missing field `{key}`"
  | repeatedMember key => s!"duplicate field `{key}`"

end Cause

/-- A cause and where it was seen. -/
@[ext] structure Fault where
  cause : Cause
  /-- Number of bytes after the place where the fault was seen. -/
  unread : Nat
  deriving DecidableEq, Repr

namespace Fault

/-- A fault seen before what is left. -/
def before (cause : Cause) (rest : Text) : Fault :=
  ⟨cause, rest.size⟩

/-- A fault of the next byte, seen after it. -/
def atNext (cause : Cause) (rest : Text) : Fault :=
  ⟨cause, rest.size - 1⟩

/-- The bytes of a text between its last line feed and its first `n` bytes' end. -/
def columnAt : Nat → Nat → Text → Nat
  | column, 0, _ => column
  | column, _ + 1, [] => column
  | column, n + 1, c :: t =>
    if c = '\n' then columnAt 0 n t
    else columnAt (column + min (n + 1) c.utf8Size) (n + 1 - c.utf8Size) t

/-- The message, with the line and the column of the fault in the text that was read. -/
def describe (input : Text) (f : Fault) : String :=
  let offset := input.size - f.unread
  s!"{f.cause.message} at line {input.lineAt offset} column {columnAt 0 offset input}"

end Fault

end NamingLint.Json
