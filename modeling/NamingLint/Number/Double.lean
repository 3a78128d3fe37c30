/-!
# NamingLint — doubles

Binary floating point numbers with 53 bits of mantissa, as exact integers.

* `Magnitude` — a number `mantissa * 2 ^ exponent`, without a sign.
* `Magnitude.ofQuotient` — the nearest magnitude to a quotient; halves go to the even neighbour.
* `Magnitude.ofParts` — the magnitude that a decimal significand and a decimal exponent stand for. It
  is computed by one rounded multiplication or by rounded divisions, so it may differ from the
  nearest one in the last bit.
-/

namespace NamingLint

/-- The number `mantissa * 2 ^ exponent`. -/
@[ext] structure Magnitude where
  mantissa : Nat
  exponent : Int
  deriving DecidableEq, Repr

/-- The nearest integer to `n / d`; a half goes to the even neighbour. -/
def roundQuotient (n d : Nat) : Nat :=
  let q := n / d
  let r := n % d
  if 2 * r < d then q
  else if d < 2 * r then q + 1
  else if q % 2 = 0 then q
  else q + 1

namespace Magnitude

/-- The least exponent. -/
def leastExponent : Int := -1074

/-- The greatest exponent. -/
def greatestExponent : Int := 971

/-- Zero. -/
def zero : Magnitude := ⟨0, leastExponent⟩

/-- Numerator of the exact value as a fraction. -/
def numerator (m : Magnitude) : Nat :=
  m.mantissa * Nat.pow 2 m.exponent.toNat

/-- Denominator of the exact value as a fraction. -/
def denominator (m : Magnitude) : Nat :=
  Nat.pow 2 (-m.exponent).toNat

/-- The exponent that gives `n / d` a mantissa of 53 bits, as far as exponents reach down. -/
def exponentOf (n d : Nat) : Int :=
  let e : Int := n.log2 - d.log2 - 52
  let full := Nat.pow 2 52 * (d * Nat.pow 2 e.toNat) ≤ n * Nat.pow 2 (-e).toNat
  max leastExponent (if full then e else e - 1)

/-- The nearest magnitude to `n / d`, if there is one in range. -/
def ofQuotient (n d : Nat) : Option Magnitude :=
  if n = 0 then some zero
  else
    let e := exponentOf n d
    let m := roundQuotient (n * Nat.pow 2 (-e).toNat) (d * Nat.pow 2 e.toNat)
    let r : Magnitude := if m = Nat.pow 2 53 then ⟨Nat.pow 2 52, e + 1⟩ else ⟨m, e⟩
    if greatestExponent < r.exponent then none else some r

/-- The nearest magnitude to a natural number, if there is one in range. -/
def ofNat (n : Nat) : Option Magnitude :=
  ofQuotient n 1

/-- The rounded product, if it is in range. -/
def mul (a b : Magnitude) : Option Magnitude :=
  ofQuotient (a.numerator * b.numerator) (a.denominator * b.denominator)

/-- The rounded quotient, if it is in range. -/
def div (a b : Magnitude) : Option Magnitude :=
  ofQuotient (a.numerator * b.denominator) (a.denominator * b.numerator)

/-- The greatest power of ten that is a magnitude has this exponent. -/
def greatestPower : Nat := 308

/-- The rounded product with a power of ten. -/
def timesPower (m : Magnitude) (k : Nat) : Option Magnitude := do
  m.mul (← ofNat (Nat.pow 10 k))

/-- The rounded quotient by a power of ten. -/
def overPower (m : Magnitude) (k : Nat) : Option Magnitude := do
  m.div (← ofNat (Nat.pow 10 k))

/-- Divides by the greatest power of ten `n` times, or until zero is reached. -/
def overGreatest : Nat → Magnitude → Option Magnitude
  | 0, m => some m
  | n + 1, m => if m.mantissa = 0 then some m else (m.overPower greatestPower).bind (overGreatest n)

/-- Divides by `10 ^ k`, by no more than the greatest power at a time. -/
def shrink (m : Magnitude) (k : Nat) : Option Magnitude := do
  let steps := (k - 1) / greatestPower
  (← overGreatest steps m).overPower (k - steps * greatestPower)

/-- The magnitude of `significand * 10 ^ exponent`; none if it is out of range. -/
def ofParts (significand : Nat) (exponent : Int) : Option Magnitude := do
  let m ← ofNat significand
  if 0 ≤ exponent then
    if exponent.toNat ≤ greatestPower then m.timesPower exponent.toNat
    else if m.mantissa = 0 then some m
    else none
  else m.shrink (-exponent).toNat

end Magnitude

/-- A magnitude with a sign; zero has one too. -/
@[ext] structure Double where
  negative : Bool
  magnitude : Magnitude
  deriving DecidableEq, Repr

end NamingLint
