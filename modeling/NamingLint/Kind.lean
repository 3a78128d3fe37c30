/-!
# NamingLint — kinds of names

* `Kind` — the eight kinds of declared names, in the order in which reports list them.
* `PerKind` — one value for each kind; `PerKind.get` is its view.
-/

namespace NamingLint

/-- What a declared name stands for. -/
inductive Kind where
  /-- `let`, `const` and `var` bindings. -/
  | bindings
  /-- Functions, methods, and bindings of function values. -/
  | functions
  | classes
  /-- Class fields and assignments to members of `this`. -/
  | properties
  /-- Parameters of functions, methods and arrow functions. -/
  | parameters
  | typeAliases
  | interfaces
  | enums
  deriving DecidableEq, Repr

namespace Kind

/-- Every kind, in report order. -/
def all : List Kind :=
  [bindings, functions, classes, properties, parameters, typeAliases, interfaces, enums]

theorem mem_all (k : Kind) : k ∈ all := by
  cases k <;> decide

/-- The word for a name of this kind. -/
def label : Kind → String
  | bindings => "variable"
  | functions => "function"
  | classes => "class"
  | properties => "property"
  | parameters => "parameter"
  | typeAliases => "type"
  | interfaces => "interface"
  | enums => "enum"

end Kind

/-- One value for each kind. -/
@[ext] structure PerKind (α : Type) where
  bindings : α
  functions : α
  classes : α
  properties : α
  parameters : α
  typeAliases : α
  interfaces : α
  enums : α
  deriving DecidableEq, Repr

namespace PerKind

variable {α : Type}

/-- The value for a kind. -/
def get (p : PerKind α) : Kind → α
  | .bindings => p.bindings
  | .functions => p.functions
  | .classes => p.classes
  | .properties => p.properties
  | .parameters => p.parameters
  | .typeAliases => p.typeAliases
  | .interfaces => p.interfaces
  | .enums => p.enums

/-- The value for each kind, given by a function. -/
def ofFn (f : Kind → α) : PerKind α where
  bindings := f .bindings
  functions := f .functions
  classes := f .classes
  properties := f .properties
  parameters := f .parameters
  typeAliases := f .typeAliases
  interfaces := f .interfaces
  enums := f .enums

/-- Replaces the value for one kind. -/
def set (p : PerKind α) (k : Kind) (a : α) : PerKind α :=
  ofFn fun j => if j = k then a else p.get j

/-- The values with their kinds, in report order. -/
def toList (p : PerKind α) : List (Kind × α) :=
  Kind.all.map fun k => (k, p.get k)

@[simp] theorem get_ofFn (f : Kind → α) (k : Kind) : (ofFn f).get k = f k := by
  cases k <;> rfl

@[simp] theorem get_set (p : PerKind α) (k j : Kind) (a : α) :
    (p.set k a).get j = if j = k then a else p.get j := by
  simp [set]

theorem ext_get {p q : PerKind α} (h : ∀ k, p.get k = q.get k) : p = q :=
  PerKind.ext (h .bindings) (h .functions) (h .classes) (h .properties) (h .parameters)
    (h .typeAliases) (h .interfaces) (h .enums)

end PerKind

end NamingLint
