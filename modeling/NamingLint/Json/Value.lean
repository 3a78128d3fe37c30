import NamingLint.Number.Shortest

/-!
# NamingLint — JSON values

* `Number` — an integer in the range of 64-bit words, signed or unsigned, or a double.
* `Value` — a JSON value; the members of an object keep their order.
-/

namespace NamingLint.Json

/-- A JSON number. -/
inductive Number where
  | int (n : Int)
  | double (d : Double)
  deriving DecidableEq, Repr

namespace Number

/-- The written form of a number. -/
def text : Number → List Char
  | int (.ofNat n) => Nat.toDigits 10 n
  | int (.negSucc n) => '-' :: Nat.toDigits 10 (n + 1)
  | double d => d.text

end Number

/-- A JSON value. -/
inductive Value where
  | null
  | bool (b : Bool)
  | number (n : Number)
  | string (s : String)
  | array (items : List Value)
  | object (members : List (String × Value))
  deriving Repr

namespace Value

/-- A natural number as a value. -/
def nat (n : Nat) : Value :=
  .number (.int n)

/-- Puts a member into a list of members that is sorted by key; it replaces one of the same key. -/
def insertMember (key : String) (v : Value) : List (String × Value) → List (String × Value)
  | [] => [(key, v)]
  | (k, w) :: ms =>
    if key < k then (key, v) :: (k, w) :: ms
    else if key = k then (key, v) :: ms
    else (k, w) :: insertMember key v ms

/-- The object of some members, sorted by key; of several members with one key the last counts. -/
def sortedObject (members : List (String × Value)) : Value :=
  .object (members.foldl (fun ms m => insertMember m.1 m.2 ms) [])

end Value

end NamingLint.Json
