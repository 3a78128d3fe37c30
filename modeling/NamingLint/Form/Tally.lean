import NamingLint.Form.Word
import NamingLint.Json.Record
import NamingLint.Tally

/-!
# NamingLint — written tallies

A tally set is written as an object whose keys are the kinds that are present. Where a kind stands
more than once the last tally counts.
-/

namespace NamingLint

open Json (Codec Members Fault Reader Value)

namespace Tally

/-- The members of a tally. -/
inductive Key where
  | valid
  | invalid
  deriving DecidableEq, Repr

/-- The type of a member. -/
abbrev Member (_ : Key) : Type := Nat

/-- The members of a tally and their forms. -/
def members : Members Key Member where
  name := "Tally"
  keys := [.valid, .invalid]
  mem_keys k := by cases k <;> simp
  label
    | .valid => "valid"
    | .invalid => "invalid"
  form _ := Codec.count

/-- A tally by its members. -/
def toMembers (t : Tally) : (k : Key) → Member k
  | .valid => t.valid
  | .invalid => t.invalid

/-- The form of a tally. -/
def codec : Codec Tally :=
  members.codec.via toMembers fun r => ⟨r .valid, r .invalid⟩

end Tally

namespace TallySet

/-- Reads the tally of one kind into a set. -/
def readMember (s : TallySet) : Reader TallySet := fun t => do
  let (k, rest) ← Kind.codec.read t
  let rest ← Json.readColon rest
  let (tally, rest) ← Tally.codec.read rest
  return (s.set k tally, rest)

/-- The form of a tally set. -/
def codec : Codec TallySet where
  write s := .object (s.rows.map fun r => (r.1.label, Tally.codec.write r.2))
  read t :=
    match Json.skipBlanks t with
    | [] => .error (.atNext .endInValue [])
    | '\x7b' :: rest => Json.readMembers readMember empty rest
    | other => .error (Json.mismatch "a map" other)

end TallySet

end NamingLint
