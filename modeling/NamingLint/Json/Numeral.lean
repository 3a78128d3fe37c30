import NamingLint.Json.Fault

/-!
# NamingLint — numerals

* `Numeral.read` — splits the digits of a number off a text: whole part, fraction, exponent.
* `Numeral.value` — the number that a numeral stands for. Digits are collected as long as the
  significand fits into 64 bits; further ones only move the decimal point, or are dropped.
-/

namespace NamingLint.Json

/-- The parts of a number, its sign aside. -/
structure Numeral where
  /-- Digits before the point. -/
  whole : Text
  /-- Digits after the point, empty if there is none. -/
  fraction : Text
  /-- Sign and digits of the exponent, if there is one; the sign is true below zero. -/
  exponent : Option (Bool × Text)
  deriving DecidableEq, Repr

namespace Numeral

/-! ## Reading -/

/-- Reads the whole part: a zero, or digits that start with another one. -/
def readWhole (atEnd : Cause) (t : Text) : Except Fault (Text × Text) :=
  match t with
  | [] => .error (.before atEnd [])
  | c :: rest =>
    if c = '0' then
      if rest.head?.any Char.isDigit then .error (.atNext .badNumber rest) else .ok ([c], rest)
    else if c.isDigit then .ok (t.takeWhile Char.isDigit, t.dropWhile Char.isDigit)
    else .error (.atNext .badNumber t)

/-- Reads a fraction if there is one: a point and at least one digit. -/
def readFraction (atEnd : Cause) (t : Text) : Except Fault (Text × Text) :=
  match t with
  | '.' :: rest =>
    match rest with
    | [] => .error (.atNext atEnd [])
    | c :: _ =>
      if c.isDigit then .ok (rest.takeWhile Char.isDigit, rest.dropWhile Char.isDigit)
      else .error (.atNext .badNumber rest)
  | _ => .ok ([], t)

/-- Reads the sign of an exponent; it is true below zero. -/
def readSign (t : Text) : Bool × Text :=
  match t with
  | '+' :: rest => (false, rest)
  | '-' :: rest => (true, rest)
  | _ => (false, t)

/-- Reads an exponent if there is one: its mark, an optional sign, and at least one digit. -/
def readExponent (atEnd : Cause) (t : Text) : Except Fault (Option (Bool × Text) × Text) :=
  match t with
  | [] => .ok (none, [])
  | c :: rest =>
    if c = 'e' ∨ c = 'E' then
      let (sign, digits) := readSign rest
      match digits with
      | [] => .error (.before atEnd [])
      | d :: _ =>
        if d.isDigit then
          .ok (some (sign, digits.takeWhile Char.isDigit), digits.dropWhile Char.isDigit)
        else .error (.atNext .badNumber digits)
    else .ok (none, t)

/-- Reads a numeral. The cause says what to report where the text ends too early. -/
def read (atEnd : Cause) (t : Text) : Except Fault (Numeral × Text) := do
  let (whole, t) ← readWhole atEnd t
  let (fraction, t) ← readFraction atEnd t
  let (exponent, t) ← readExponent atEnd t
  return (⟨whole, fraction, exponent⟩, t)

/-! ## Value -/

/-- The greatest significand. -/
def greatest : Nat := 18446744073709551615

/-- The greatest exponent that is looked at. -/
def greatestExponent : Nat := 2147483647

/-- The value of a digit. -/
def digit (c : Char) : Nat :=
  c.toNat - '0'.toNat

/-- Appends digits to a number as long as it stays within a bound; the digits left over follow. -/
def collect (bound : Nat) (n : Nat) : Text → Nat × Text
  | [] => (n, [])
  | c :: ds => if bound < 10 * n + digit c then (n, c :: ds) else collect bound (10 * n + digit c) ds

/-- The integer of a significand, if it is in range; below zero the range is that of signed words
without zero. -/
def integer? (negative : Bool) (significand : Nat) : Option Int :=
  if !negative then some significand
  else if significand = 0 ∨ 9223372036854775808 < significand then none
  else some (-significand)

/-- The double of a significand and a decimal exponent. -/
def double (negative : Bool) (significand : Nat) (exponent : Int) (rest : Text) :
    Except Fault Number :=
  match Magnitude.ofParts significand exponent with
  | some m => .ok (.double ⟨negative, m⟩)
  | none => .error (.before .outOfRange rest)

/-- The number of a numeral that stands before `rest`. -/
def value (negative : Bool) (n : Numeral) (rest : Text) : Except Fault Number :=
  let (whole, overflow) := collect greatest 0 n.whole
  if overflow = [] ∧ n.fraction = [] ∧ n.exponent = none then
    match integer? negative whole with
    | some i => .ok (.int i)
    | none => double negative whole 0 rest
  else
    let (significand, dropped) := collect greatest whole n.fraction
    let point : Int := overflow.length - (n.fraction.length - dropped.length : Nat)
    match n.exponent with
    | none => double negative significand point rest
    | some (down, digits) =>
      match collect greatestExponent 0 digits with
      | (e, []) => double negative significand (if down then point - e else point + e) rest
      | (_, _ :: after) =>
        if significand ≠ 0 ∧ !down then .error ⟨.outOfRange, Text.size after + rest.size⟩
        else .ok (.double ⟨negative, Magnitude.zero⟩)

end Numeral

/-- Reads a number after its sign. -/
def readNumber (negative : Bool) (t : Text) : Except Fault (Number × Text) := do
  let (numeral, rest) ← Numeral.read .endInValue t
  return (← numeral.value negative rest, rest)

end NamingLint.Json
