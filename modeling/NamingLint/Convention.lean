import NamingLint.Text.Basic

/-!
# NamingLint — naming conventions

* `Convention` — the four conventions a configuration may name.
* `Convention.predicate?` — the test behind a convention; two conventions are reserved and have
  none.
* `PerConvention` — one value for each convention.
-/

namespace NamingLint

/-- A way to write names. -/
inductive Convention where
  | camel
  | pascal
  /-- Reserved: no test is attached to it. -/
  | snake
  /-- Reserved: no test is attached to it. -/
  | kebab
  deriving DecidableEq, Repr

namespace Convention

/-- Every convention, in report order. -/
def all : List Convention :=
  [camel, pascal, snake, kebab]

theorem mem_all (c : Convention) : c ∈ all := by
  cases c <;> decide

/-- The spelling used in configurations and reports. -/
def label : Convention → String
  | camel => "camelCase"
  | pascal => "pascalCase"
  | snake => "snake_case"
  | kebab => "kebab-case"

/-- Name of the rule that checks the convention. -/
def ruleName : Convention → String
  | camel => "camel-case"
  | pascal => "pascal-case"
  | snake => "snake-case"
  | kebab => "kebab-case"

/-- What the rule asks of a name, in a sentence; empty for the reserved conventions. -/
def description : Convention → String
  | camel => "Names start lowercase and contain only ASCII letters and digits"
  | pascal => "Names start uppercase and contain only ASCII letters and digits"
  | snake => ""
  | kebab => ""

/-- A lower-case ASCII letter, then ASCII letters and digits. -/
def isCamel : Text → Bool
  | [] => false
  | c :: t => c.isLower && t.all Char.isAlphanum

/-- An upper-case ASCII letter, then ASCII letters and digits. -/
def isPascal : Text → Bool
  | [] => false
  | c :: t => c.isUpper && t.all Char.isAlphanum

/-- The test behind a convention, if there is one. -/
def predicate? : Convention → Option (Text → Bool)
  | camel => some isCamel
  | pascal => some isPascal
  | snake => none
  | kebab => none

end Convention

/-- One value for each convention. -/
@[ext] structure PerConvention (α : Type) where
  camel : α
  pascal : α
  snake : α
  kebab : α
  deriving DecidableEq, Repr

namespace PerConvention

variable {α : Type}

/-- The value for a convention. -/
def get (p : PerConvention α) : Convention → α
  | .camel => p.camel
  | .pascal => p.pascal
  | .snake => p.snake
  | .kebab => p.kebab

/-- The value for each convention, given by a function. -/
def ofFn (f : Convention → α) : PerConvention α where
  camel := f .camel
  pascal := f .pascal
  snake := f .snake
  kebab := f .kebab

@[simp] theorem get_ofFn (f : Convention → α) (c : Convention) : (ofFn f).get c = f c := by
  cases c <;> rfl

theorem ext_get {p q : PerConvention α} (h : ∀ c, p.get c = q.get c) : p = q :=
  PerConvention.ext (h .camel) (h .pascal) (h .snake) (h .kebab)

end PerConvention

end NamingLint
