/-!
# NamingLint — log events
-/

namespace NamingLint

/-- How much an event matters. -/
inductive Level where
  | error
  | warn
  | info
  | debug
  | trace
  deriving DecidableEq, Repr

namespace Level

/-- The word for a level. -/
def label : Level → String
  | error => "ERROR"
  | warn => "WARN"
  | info => "INFO"
  | debug => "DEBUG"
  | trace => "TRACE"

/-- Position from the most to the least severe level. -/
def rank : Level → Nat
  | error => 0
  | warn => 1
  | info => 2
  | debug => 3
  | trace => 4

end Level

/-- Something worth noting during a run. -/
structure Event where
  level : Level
  message : String
  deriving DecidableEq, Repr

namespace Event

/-- `LEVEL message` -/
def display (e : Event) : String :=
  s!"{e.level.label} {e.message}"

/-- Is the event of a level or more severe? -/
def isUpTo (level : Level) (e : Event) : Bool :=
  e.level.rank ≤ level.rank

end Event

end NamingLint
