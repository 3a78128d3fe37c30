import NamingLint.Number.Double

/-!
# NamingLint — shortest decimals

The shortest decimal of a magnitude has the fewest digits among those that are nearer to it than to
any other magnitude, and of these it is the nearest.

* `Shortest.decimal` — digits and decimal exponent.
* `Double.text` — the written form: positional for decimal exponents from -5 to 15, with at least
  one decimal; with an exponent otherwise.
-/

namespace NamingLint

/-- The number `digits * 10 ^ exponent`. -/
@[ext] structure Decimal where
  digits : Nat
  exponent : Int
  deriving DecidableEq, Repr

namespace Shortest

/-- The least `j` from `j₀` on, in at most `fuel` steps, with `d ≤ n * 10 ^ j`. -/
def firstPower (n d : Nat) : Nat → Nat → Nat
  | 0, j => j
  | fuel + 1, j => if d ≤ n * Nat.pow 10 j then j else firstPower n d fuel (j + 1)

/-- The exponent of the leading decimal digit of `n / d`, for a positive quotient in range. -/
def leadingExponent (n d : Nat) : Int :=
  if d ≤ n then ((Nat.toDigits 10 (n / d)).length : Int) - 1
  else -(firstPower n d 400 1 : Int)

/-- The reals that round to a magnitude, in quarters of its last place. -/
structure Interval where
  low : Nat
  middle : Nat
  high : Nat
  /-- Do the ends belong to the interval? -/
  closed : Bool
  /-- The unit, as an exponent of two. -/
  exponent : Int

/-- The interval of a magnitude. Below a power of two the next magnitude is only half as far. -/
def intervalOf (m : Magnitude) : Interval where
  low :=
    if m.mantissa = Nat.pow 2 52 ∧ Magnitude.leastExponent < m.exponent then 4 * m.mantissa - 1
    else 4 * m.mantissa - 2
  middle := 4 * m.mantissa
  high := 4 * m.mantissa + 2
  closed := m.mantissa % 2 = 0
  exponent := m.exponent - 2

/-- A decimal with the given exponent in the interval, the nearest one to its middle. `a` and `b`
bring the two units to a common measure. -/
def onGrid (i : Interval) (exponent : Int) : Option Decimal :=
  let a := Nat.pow 10 exponent.toNat * Nat.pow 2 (-i.exponent).toNat
  let b := Nat.pow 2 i.exponent.toNat * Nat.pow 10 (-exponent).toNat
  let inside (c : Nat) : Bool :=
    if i.closed then i.low * b ≤ c * a && c * a ≤ i.high * b
    else i.low * b < c * a && c * a < i.high * b
  let c := i.middle * b / a
  let below := i.middle * b - c * a
  let above := (c + 1) * a - i.middle * b
  let nearest := if below < above ∨ (below = above ∧ c % 2 = 0) then [c, c + 1] else [c + 1, c]
  (nearest.find? inside).map fun c => ⟨c, exponent⟩

/-- The first decimal found on the grids of `digits`, `digits + 1`, … digits. -/
def search (i : Interval) (leading : Int) : Nat → Nat → Decimal
  | 0, _ => ⟨0, 0⟩
  | fuel + 1, digits =>
    match onGrid i (leading - digits + 1) with
    | some d => d
    | none => search i leading fuel (digits + 1)

/-- The shortest decimal of a positive magnitude. -/
def decimal (m : Magnitude) : Decimal :=
  search (intervalOf m) (leadingExponent m.numerator m.denominator) 17 1

end Shortest

namespace Decimal

/-- Removes a zero at the end of the digits, at most `fuel` times. -/
def trimZeros : Nat → Decimal → Decimal
  | 0, d => d
  | fuel + 1, d =>
    if d.digits % 10 = 0 ∧ d.digits ≠ 0 then trimZeros fuel ⟨d.digits / 10, d.exponent + 1⟩ else d

/-- Digits with a point after the first `n`, and a zero where a side of the point would be empty. -/
def pointAfter (n : Nat) (ds : List Char) : List Char :=
  let whole := ds.take n ++ List.replicate (n - ds.length) '0'
  let rest := ds.drop n
  (if whole.isEmpty then ['0'] else whole) ++ '.' :: (if rest.isEmpty then ['0'] else rest)

/-- The written form of a positive decimal. -/
def text (d : Decimal) : List Char :=
  let d := trimZeros 20 d
  let ds := Nat.toDigits 10 d.digits
  let e : Int := d.exponent + ds.length - 1
  if -5 ≤ e ∧ e < 0 then pointAfter 0 (List.replicate ((-e).toNat - 1) '0' ++ ds)
  else if 0 ≤ e ∧ e ≤ 15 then pointAfter (e.toNat + 1) ds
  else
    let mantissa := if ds.length = 1 then ds else pointAfter 1 ds
    mantissa ++ 'e' :: (if e < 0 then '-' else '+') :: Nat.toDigits 10 e.natAbs

end Decimal

namespace Double

/-- The written form of a double. -/
def text (d : Double) : List Char :=
  (if d.negative then ['-'] else []) ++
    (if d.magnitude.mantissa = 0 then ['0', '.', '0'] else (Shortest.decimal d.magnitude).text)

end Double

end NamingLint
