import NamingLint.Form.Word
import NamingLint.Json.Record
import NamingLint.Violation

/-!
# NamingLint — written locations, violations and findings
-/

namespace NamingLint

open Json (Codec Members)

/-! ## Paths and locations -/

/-- The form of a path. -/
def Path.codec : Codec Path :=
  (Codec.text "path string").via Path.text Path.mk

namespace Location

/-- The members of a location. -/
inductive Key where
  | filePath
  | line
  deriving DecidableEq, Repr

/-- The type of a member. -/
abbrev Member : Key → Type
  | .filePath => Path
  | .line => Nat

/-- The members of a location and their forms. -/
def members : Members Key Member where
  name := "Location"
  keys := [.filePath, .line]
  mem_keys k := by cases k <;> simp
  label
    | .filePath => "filePath"
    | .line => "line"
  form
    | .filePath => Path.codec
    | .line => Codec.count

/-- A location by its members. -/
def toMembers (l : Location) : (k : Key) → Member k
  | .filePath => l.path
  | .line => l.line

/-- The form of a location. -/
def codec : Codec Location :=
  members.codec.via toMembers fun r => ⟨r .filePath, r .line⟩

end Location

/-! ## Violations -/

namespace Violation

/-- The members of a violation. -/
inductive Key where
  | identifierName
  | kind
  | convention
  | location
  deriving DecidableEq, Repr

/-- The type of a member. -/
abbrev Member : Key → Type
  | .identifierName => String
  | .kind => Kind
  | .convention => Convention
  | .location => Location

/-- The members of a violation and their forms. -/
def members : Members Key Member where
  name := "Violation"
  keys := [.identifierName, .kind, .convention, .location]
  mem_keys k := by cases k <;> simp
  label
    | .identifierName => "identifierName"
    | .kind => "kind"
    | .convention => "convention"
    | .location => "location"
  form
    | .identifierName => Codec.string
    | .kind => Kind.codec
    | .convention => Convention.codec
    | .location => Location.codec

/-- A violation by its members. -/
def toMembers (v : Violation) : (k : Key) → Member k
  | .identifierName => v.name
  | .kind => v.kind
  | .convention => v.convention
  | .location => v.location

/-- The form of a violation. -/
def codec : Codec Violation :=
  members.codec.via toMembers fun r =>
    ⟨r .identifierName, r .kind, r .convention, r .location⟩

end Violation

/-! ## Findings -/

namespace Finding

/-- The members of a finding. -/
inductive Key where
  | rule
  | message
  | location
  deriving DecidableEq, Repr

/-- The type of a member. -/
abbrev Member : Key → Type
  | .rule => String
  | .message => String
  | .location => Location

/-- The members of a finding and their forms. -/
def members : Members Key Member where
  name := "ConstructFinding"
  keys := [.rule, .message, .location]
  mem_keys k := by cases k <;> simp
  label
    | .rule => "rule"
    | .message => "message"
    | .location => "location"
  form
    | .rule => Codec.string
    | .message => Codec.string
    | .location => Location.codec

/-- A finding by its members. -/
def toMembers (f : Finding) : (k : Key) → Member k
  | .rule => f.rule
  | .message => f.message
  | .location => f.location

/-- The form of a finding. -/
def codec : Codec Finding :=
  members.codec.via toMembers fun r => ⟨r .rule, r .message, r .location⟩

end Finding

end NamingLint
