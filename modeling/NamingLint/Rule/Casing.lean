import NamingLint.Declaration.Detect
import NamingLint.Rule.Basic

/-!
# NamingLint — casing rules

A casing rule holds the names that a detector finds to one convention. There is one for each
detector and each convention that has a test.
-/

namespace NamingLint

/-- A convention with a test, for the names that a detector finds. -/
structure CasingRule where
  detector : Detector
  convention : Convention
  /-- The test behind the convention. -/
  accepts : Text → Bool
  accepts_eq : convention.predicate? = some accepts

namespace CasingRule

/-- The rule for a detector and a convention, if the convention has a test. -/
def ofDetector? (detector : Detector) (convention : Convention) : Option CasingRule :=
  match h : convention.predicate? with
  | none => none
  | some accepts => some ⟨detector, convention, accepts, h⟩

/-- The rule for a kind and a convention, with the detector that comes with the kind. -/
def of? (kind : Kind) (convention : Convention) : Option CasingRule :=
  ofDetector? kind.detector convention

/-- The kind of the names that the rule looks at. -/
def kind (r : CasingRule) : Kind :=
  r.detector.kind

/-- The declarations that the rule looks at. -/
def declarations (r : CasingRule) (f : SourceFile) : List Declaration :=
  r.detector.detect f.stripped

/-- Does a declaration follow the convention? -/
def passes (r : CasingRule) (d : Declaration) : Bool :=
  r.accepts d.name

/-- The violation that a failing declaration is. -/
def violation (r : CasingRule) (f : SourceFile) (d : Declaration) : Violation :=
  ⟨String.ofList d.name, r.kind, r.convention, f.location d.matched d.offset⟩

/-- Adds a declaration to what the rule has said so far. -/
def record (r : CasingRule) (f : SourceFile) (o : Outcome) (d : Declaration) : Outcome where
  tally := o.tally.record (r.passes d)
  violations := if r.passes d then o.violations else o.violations ++ [r.violation f d]

/-- What the rule says about a file, declaration by declaration. -/
def check (r : CasingRule) (f : SourceFile) : Outcome :=
  (r.declarations f).foldl (r.record f) .nothing

/-- The event of a declaration that was looked at. -/
def event (r : CasingRule) (d : Declaration) : Event :=
  ⟨.trace, s!"Checked identifier name={String.ofList d.name} kind={r.kind.label} " ++
    s!"valid={r.passes d}"⟩

/-- A casing rule as a rule of an analysis. -/
@[coe] def toRule (r : CasingRule) : Rule where
  name := r.convention.ruleName
  kind := r.kind
  convention := r.convention
  description := r.convention.description
  check := r.check
  events f := (r.declarations f).map r.event

instance : Coe CasingRule Rule := ⟨toRule⟩

end CasingRule

end NamingLint
