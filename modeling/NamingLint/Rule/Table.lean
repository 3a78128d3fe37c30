import NamingLint.Rule.Casing
import NamingLint.Rule.Construct

/-!
# NamingLint — rule tables

A table says which rules there are: at most one for the names of a kind and a convention, and any
number of construct rules.
-/

namespace NamingLint

/-- The rules of an analysis. -/
structure RuleTable where
  /-- The rules about names. -/
  rules : List Rule
  constructs : List ConstructRule

namespace RuleTable

/-- No rules. -/
def empty : RuleTable := ⟨[], []⟩

/-- The rule for a kind and a convention. -/
def lookup (t : RuleTable) (k : Kind) (c : Convention) : Option Rule :=
  t.rules.find? fun r => r.kind = k ∧ r.convention = c

/-- Is there a rule for a kind and a convention? -/
def implements (t : RuleTable) (k : Kind) (c : Convention) : Bool :=
  (t.lookup k c).isSome

/-- Adds a rule; it takes the place of one for the same kind and convention. -/
def insert (t : RuleTable) (r : Rule) : RuleTable :=
  { t with
    rules := r :: t.rules.filter fun s => !(s.kind = r.kind ∧ s.convention = r.convention) }

/-- Adds the casing rules of some pairs; pairs without a test add none. -/
def insertPairs (t : RuleTable) (pairs : List (Kind × Convention)) : RuleTable :=
  (pairs.filterMap fun p => (CasingRule.of? p.1 p.2).map CasingRule.toRule).foldl insert t

/-- Adds a construct rule. -/
def addConstruct (t : RuleTable) (r : ConstructRule) : RuleTable :=
  { t with constructs := t.constructs ++ [r] }

/-- Number of rules. -/
def size (t : RuleTable) : Nat :=
  t.rules.length + t.constructs.length

/-- Every pair of a kind and a convention. -/
def allPairs : List (Kind × Convention) :=
  Kind.all.flatMap fun k => Convention.all.map fun c => (k, c)

/-- Every casing rule there is, and the rule against `any`. -/
def standard : RuleTable :=
  (empty.insertPairs allPairs).addConstruct .noAny

end RuleTable

end NamingLint
