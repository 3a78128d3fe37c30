import NamingLint.Config.Basic
import NamingLint.Log
import NamingLint.Source.File
import NamingLint.Tally
import NamingLint.Violation

/-!
# NamingLint — rules

An analysis knows its rules through two interfaces, so a rule of one's own can stand beside those
that come with the library.

* `Rule` — holds the names of one kind to one convention.
* `ConstructRule` — forbids something other than a name.
-/

namespace NamingLint

/-- What a rule says about the names of a file. -/
@[ext] structure Outcome where
  tally : Tally
  /-- One entry for each name that fails. -/
  violations : List Violation
  deriving DecidableEq, Repr

/-- Nothing was looked at. -/
def Outcome.nothing : Outcome := ⟨Tally.zero, []⟩

/-- A check of the names of one kind against one convention. -/
structure Rule where
  name : String
  kind : Kind
  convention : Convention
  description : String := ""
  /-- What the rule says about a file. -/
  check : SourceFile → Outcome
  /-- What the rule notes while it looks at a file. -/
  events : SourceFile → List Event := fun _ => []

/-- A check for something other than names. -/
structure ConstructRule where
  name : String
  description : String := ""
  /-- Does a configuration switch the rule on? -/
  isEnabled : Config → Bool
  /-- The word that switches the rule off for a file, if there is one. -/
  marker : Option String := none
  /-- What the rule finds in a file. -/
  check : SourceFile → List Finding

/-- The marker of the rule, if it stands in a stripped text. -/
def ConstructRule.foundMarker? (r : ConstructRule) (stripped : Text) : Option String :=
  r.marker.filter fun word => Text.contains word.toList stripped

end NamingLint
