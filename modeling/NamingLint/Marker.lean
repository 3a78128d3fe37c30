import NamingLint.Source.Region

/-!
# NamingLint — suppression markers

A marker is a word searched for in the stripped text of a file. Its presence anywhere switches the
checks it stands for off, for the whole file.
-/

namespace NamingLint

/-- A word whose presence in a file switches checks off. -/
inductive Marker where
  /-- Switches every check off. -/
  | casing
  /-- Switches the `any` rule off. -/
  | any
  deriving DecidableEq, Repr

namespace Marker

/-- The word to write. -/
def word : Marker → String
  | casing => "@ignoreCasing"
  | any => "@ignoreAny"

/-- Does the word of a marker stand in a stripped text? -/
def suppresses (m : Marker) (stripped : Text) : Bool :=
  Text.contains m.word.toList stripped

end Marker

end NamingLint
