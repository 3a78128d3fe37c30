import NamingLint.Json.Numeral

/-!
# NamingLint — reading JSON

A reader takes something off the front of a text, or fails at a place.

* `readString` — a string, after its opening quote.
* `mismatch` — the fault of a value that has another type than the wanted one.
* `readItems`, `readMembers` — lists and objects, over a reader for their items or members.
* `skipValue` — passes a value of any form; its numbers may have any size and its strings any code
  units.
-/

namespace NamingLint.Json

/-- Takes something off the front of a text. -/
abbrev Reader (α : Type) := Text → Except Fault (α × Text)

/-- Is this a blank between the parts of a JSON text? -/
def isBlank (c : Char) : Bool :=
  c = ' ' || c = '\n' || c = '\t' || c = '\r'

/-- The text from its first character on that is no blank. -/
def skipBlanks (t : Text) : Text :=
  t.dropWhile isBlank

/-! ## Words -/

/-- Passes the rest of a word. -/
def expectWord : Text → Text → Except Fault Text
  | [], t => .ok t
  | _ :: _, [] => .error (.before .endInValue [])
  | w :: ws, c :: t => if c = w then expectWord ws t else .error (.atNext .wantedWord (c :: t))

/-! ## Strings -/

/-- The value of a hexadecimal digit. -/
def hexValue? (c : Char) : Option Nat :=
  if c.isDigit then some (c.toNat - '0'.toNat)
  else if 'a' ≤ c ∧ c ≤ 'f' then some (c.toNat - 'a'.toNat + 10)
  else if 'A' ≤ c ∧ c ≤ 'F' then some (c.toNat - 'A'.toNat + 10)
  else none

/-- The number that four hexadecimal digits stand for. -/
def hexNumber? (ds : Text) : Option Nat := do
  match ds with
  | [a, b, c, d] =>
    let a ← hexValue? a
    let b ← hexValue? b
    let c ← hexValue? c
    let d ← hexValue? d
    return ((a * 16 + b) * 16 + c) * 16 + d
  | _ => none

/-- Reads four hexadecimal digits. Four bytes are taken whatever they are. -/
def readHex (t : Text) : Except Fault (Nat × Text) :=
  if t.size < 4 then .error (.before .endInString [])
  else
    match hexNumber? (t.take 4) with
    | some n => .ok (n, t.drop 4)
    | none => .error ⟨.badEscape, t.size - 4⟩

/-- Is this the first code unit of a pair? -/
def isLeading (n : Nat) : Bool :=
  0xd800 ≤ n && n ≤ 0xdbff

/-- Is this the second code unit of a pair? -/
def isTrailing (n : Nat) : Bool :=
  0xdc00 ≤ n && n ≤ 0xdfff

/-- The character of a pair of code units. -/
def pairChar (leading trailing : Nat) : Char :=
  Char.ofNat ((leading - 0xd800) * 0x400 + (trailing - 0xdc00) + 0x10000)

/-- Reads the second escape of a pair. -/
def readTrailing (leading : Nat) (t : Text) : Except Fault (Char × Text) :=
  match t with
  | [] => .error (.before .endInString [])
  | ['\\'] => .error (.before .endInString [])
  | '\\' :: 'u' :: rest => do
    let (trailing, rest) ← readHex rest
    if isTrailing trailing then return (pairChar leading trailing, rest)
    else .error (.before .loneSurrogate rest)
  | '\\' :: rest => .error (.atNext .brokenSurrogate rest)
  | _ => .error (.atNext .brokenSurrogate t)

/-- Reads the digits of a code unit, and a second escape where the first calls for one. -/
def readCodeUnits (t : Text) : Except Fault (Char × Text) := do
  let (n, rest) ← readHex t
  if isTrailing n then .error (.before .loneSurrogate rest)
  else if isLeading n then readTrailing n rest
  else return (Char.ofNat n, rest)

/-- The character that a letter after a backslash stands for. -/
def shortEscape? (c : Char) : Option Char :=
  if c = '"' then some '"'
  else if c = '\\' then some '\\'
  else if c = '/' then some '/'
  else if c = 'b' then some '\x08'
  else if c = 'f' then some '\x0c'
  else if c = 'n' then some '\n'
  else if c = 'r' then some '\r'
  else if c = 't' then some '\t'
  else none

/-- Reads an escape after its backslash. -/
def readEscape (t : Text) : Except Fault (Char × Text) :=
  match t with
  | [] => .error (.before .endInString [])
  | c :: rest =>
    if c = 'u' then readCodeUnits rest
    else
      match shortEscape? c with
      | some d => .ok (d, rest)
      | none => .error (.atNext .badEscape t)

/-- Reads the characters of a string and its closing quote, in at most `fuel` steps. -/
def readCharacters : Nat → Text → Except Fault (Text × Text)
  | 0, t => .error (.before .endInString t)
  | _ + 1, [] => .error (.before .endInString [])
  | fuel + 1, c :: t =>
    if c = '"' then .ok ([], t)
    else if c = '\\' then do
      let (d, rest) ← readEscape t
      let (ds, rest) ← readCharacters fuel rest
      return (d :: ds, rest)
    else if c.toNat < 0x20 then .error (.atNext .controlCharacter (c :: t))
    else do
      let (ds, rest) ← readCharacters fuel t
      return (c :: ds, rest)

/-- Reads a string after its opening quote. -/
def readString (t : Text) : Except Fault (Text × Text) :=
  readCharacters (t.length + 1) t

/-! ## Mismatches -/

/-- The fault of a value of another type than the wanted one, at the front of a text without blanks.
A scalar is read to its end; of a list or an object nothing is read. -/
def mismatch (wanted : String) (t : Text) : Fault :=
  let after {α : Type} (found : α → Found) : Except Fault (α × Text) → Fault
    | .ok (a, rest) => .before (.wrongType (found a) wanted) rest
    | .error f => f
  match t with
  | [] => .atNext .wantedValue []
  | c :: rest =>
    if c = 'n' then after (fun _ => .null) ((expectWord "ull".toList rest).map ((), ·))
    else if c = 't' then after .bool ((expectWord "rue".toList rest).map (true, ·))
    else if c = 'f' then after .bool ((expectWord "alse".toList rest).map (false, ·))
    else if c = '-' then after .number (readNumber true rest)
    else if c.isDigit then after .number (readNumber false t)
    else if c = '"' then after .string (readString rest)
    else if c = '[' then .before (.wrongType .sequence wanted) t
    else if c = '\x7b' then .before (.wrongType .map wanted) t
    else .atNext .wantedValue t

/-! ## Lists -/

/-- Reads the items after the first and the closing bracket, in at most `fuel` steps. -/
def readMoreItems {α : Type} (item : Reader α) : Nat → Reader (List α)
  | 0, t => .error (.before .endInList t)
  | fuel + 1, t =>
    match skipBlanks t with
    | [] => .error (.atNext .endInList [])
    | ']' :: rest => .ok ([], rest)
    | ',' :: rest =>
      match skipBlanks rest with
      | [] => .error (.atNext .endInValue [])
      | ']' :: more => .error (.atNext .trailingComma (']' :: more))
      | next => do
        let (a, rest) ← item next
        let (as, rest) ← readMoreItems item fuel rest
        return (a :: as, rest)
    | other => .error (.atNext .wantedItemOrEnd other)

/-- Reads the items of a list and its closing bracket, after the opening one. -/
def readItems {α : Type} (item : Reader α) : Reader (List α) := fun t =>
  match skipBlanks t with
  | [] => .error (.atNext .endInList [])
  | ']' :: rest => .ok ([], rest)
  | next => do
    let (a, rest) ← item next
    let (as, rest) ← readMoreItems item (rest.length + 1) rest
    return (a :: as, rest)

/-- What is left after an attempt to close a list. -/
def pastListEnd (t : Text) : Text :=
  match skipBlanks t with
  | ']' :: rest => rest
  | ',' :: rest => skipBlanks rest
  | rest => rest

/-! ## Objects -/

/-- Passes the colon after a key. -/
def readColon (t : Text) : Except Fault Text :=
  match skipBlanks t with
  | [] => .error (.atNext .endInObject [])
  | ':' :: rest => .ok rest
  | other => .error (.atNext .wantedColon other)

/-- Reads the members after the first and the closing brace, in at most `fuel` steps. `member` reads a
member from the opening quote of its key on and adds it to what was collected. -/
def readMoreMembers {σ : Type} (member : σ → Reader σ) : Nat → σ → Reader σ
  | 0, _, t => .error (.before .endInObject t)
  | fuel + 1, s, t =>
    match skipBlanks t with
    | [] => .error (.atNext .endInObject [])
    | '\x7d' :: rest => .ok (s, rest)
    | ',' :: rest =>
      match skipBlanks rest with
      | [] => .error (.atNext .endInValue [])
      | '"' :: more => do
        let (s, rest) ← member s ('"' :: more)
        readMoreMembers member fuel s rest
      | '\x7d' :: more => .error (.atNext .trailingComma ('\x7d' :: more))
      | other => .error (.atNext .wantedKey other)
    | other => .error (.atNext .wantedMemberOrEnd other)

/-- Reads the members of an object and its closing brace, after the opening one. -/
def readMembers {σ : Type} (member : σ → Reader σ) (s : σ) : Reader σ := fun t =>
  match skipBlanks t with
  | [] => .error (.atNext .endInObject [])
  | '\x7d' :: rest => .ok (s, rest)
  | '"' :: more => do
    let (s, rest) ← member s ('"' :: more)
    readMoreMembers member (rest.length + 1) s rest
  | other => .error (.atNext .wantedKey other)

/-- What is left after an attempt to close an object. -/
def pastObjectEnd (t : Text) : Text :=
  match skipBlanks t with
  | '\x7d' :: rest => rest
  | rest => rest

/-! ## Skipping -/

/-- Passes an escape after its backslash. -/
def skipEscape (t : Text) : Except Fault Text :=
  match t with
  | [] => .error (.before .endInString [])
  | c :: rest =>
    if c = 'u' then (readHex rest).map Prod.snd
    else if (shortEscape? c).isSome then .ok rest
    else .error (.atNext .badEscape t)

/-- Passes the characters of a string and its closing quote, in at most `fuel` steps. -/
def skipCharacters : Nat → Text → Except Fault Text
  | 0, t => .error (.before .endInString t)
  | _ + 1, [] => .error (.before .endInString [])
  | fuel + 1, c :: t =>
    if c = '"' then .ok t
    else if c = '\\' then (skipEscape t).bind (skipCharacters fuel)
    else if c.toNat < 0x20 then .error (.before .controlCharacter (c :: t))
    else skipCharacters fuel t

/-- Passes a string after its opening quote. -/
def skipString (t : Text) : Except Fault Text :=
  skipCharacters (t.length + 1) t

mutual

/-- Passes a value, in at most `fuel` steps. -/
def skipValueWithin : Nat → Text → Except Fault Text
  | 0, t => .error (.before .endInValue t)
  | fuel + 1, t =>
    match skipBlanks t with
    | [] => .error (.atNext .endInValue [])
    | c :: rest =>
      if c = 'n' then expectWord "ull".toList rest
      else if c = 't' then expectWord "rue".toList rest
      else if c = 'f' then expectWord "alse".toList rest
      else if c = '-' then (Numeral.read .badNumber rest).map Prod.snd
      else if c.isDigit then (Numeral.read .badNumber (c :: rest)).map Prod.snd
      else if c = '"' then skipString rest
      else if c = '[' then
        match skipBlanks rest with
        | [] => .error (.atNext .endInList [])
        | ']' :: rest => .ok rest
        | next => skipItemsWithin fuel next
      else if c = '\x7b' then
        match skipBlanks rest with
        | [] => .error (.atNext .endInObject [])
        | '\x7d' :: rest => .ok rest
        | next => skipMembersWithin fuel next
      else .error (.atNext .wantedValue (c :: rest))

/-- Passes at least one item and the closing bracket, in at most `fuel` steps. -/
def skipItemsWithin : Nat → Text → Except Fault Text
  | 0, t => .error (.before .endInList t)
  | fuel + 1, t => do
    let rest ← skipValueWithin fuel t
    match skipBlanks rest with
    | [] => .error (.atNext .endInList [])
    | ']' :: rest => .ok rest
    | ',' :: rest => skipItemsWithin fuel rest
    | other => .error (.atNext .wantedItemOrEnd other)

/-- Passes at least one member and the closing brace, in at most `fuel` steps. -/
def skipMembersWithin : Nat → Text → Except Fault Text
  | 0, t => .error (.before .endInObject t)
  | fuel + 1, t =>
    match skipBlanks t with
    | [] => .error (.atNext .endInObject [])
    | '"' :: rest => do
      let rest ← skipString rest
      let rest ← readColon rest
      let rest ← skipValueWithin fuel rest
      match skipBlanks rest with
      | [] => .error (.atNext .endInObject [])
      | '\x7d' :: rest => .ok rest
      | ',' :: rest => skipMembersWithin fuel rest
      | other => .error (.atNext .wantedMemberOrEnd other)
    | other => .error (.atNext .wantedKey other)

end

/-- Passes a value. -/
def skipValue (t : Text) : Except Fault Text :=
  skipValueWithin (2 * t.length + 2) t

/-! ## Values -/

/-- Reads a string, its quotes included, for use as a key. -/
def readKey : Reader Text
  | '"' :: t => readString t
  | t => .error (.atNext .wantedKey t)

/-- Reads a value whose lists and objects are read by the given readers, after their opening
brackets. -/
def readValueWith (list object : Text → Except Fault (Value × Text)) : Reader Value := fun t =>
  match skipBlanks t with
  | [] => .error (.atNext .endInValue [])
  | c :: rest =>
    if c = 'n' then (expectWord "ull".toList rest).map (.null, ·)
    else if c = 't' then (expectWord "rue".toList rest).map (.bool true, ·)
    else if c = 'f' then (expectWord "alse".toList rest).map (.bool false, ·)
    else if c = '-' then (readNumber true rest).map fun (n, rest) => (.number n, rest)
    else if c.isDigit then (readNumber false (c :: rest)).map fun (n, rest) => (.number n, rest)
    else if c = '"' then (readString rest).map fun (s, rest) => (.string (String.ofList s), rest)
    else if c = '[' then list rest
    else if c = '\x7b' then object rest
    else .error (.atNext .wantedValue (c :: rest))

/-- Reads a member with any value. -/
def readAnyMember (value : Reader Value) (ms : List (String × Value)) :
    Reader (List (String × Value)) := fun t => do
  let (key, rest) ← readKey t
  let rest ← readColon rest
  let (v, rest) ← value rest
  return (ms ++ [(String.ofList key, v)], rest)

/-- The fault of an opening bracket that nests too deep. -/
def tooDeep (rest : Text) : Except Fault (Value × Text) :=
  .error (.before .tooDeep rest)

/-- Reads any value in which at most `room` brackets are open at a time. Objects come out sorted by
key. -/
def readValue : Nat → Reader Value
  | 0 => readValueWith tooDeep tooDeep
  | room + 1 =>
    readValueWith
      (fun t => (readItems (readValue room) t).map fun (vs, rest) => (.array vs, rest))
      (fun t => (readMembers (readAnyMember (readValue room)) [] t).map
        fun (ms, rest) => (.sortedObject ms, rest))

/-- How many brackets may be open at a time. -/
def nestingLimit : Nat := 127

/-! ## Whole texts -/

/-- Reads a whole text; only blanks may follow. -/
def readAll {α : Type} (reader : Reader α) (t : Text) : Except Fault α := do
  let (a, rest) ← reader t
  match skipBlanks rest with
  | [] => return a
  | other => .error (.atNext .trailingCharacters other)

/-- Reads a whole text as any value. -/
def Value.parse (t : Text) : Except Fault Value :=
  readAll (readValue nestingLimit) t

end NamingLint.Json
