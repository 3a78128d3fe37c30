import NamingLint.Kind
import NamingLint.Declaration.Binding
import NamingLint.Declaration.Callable
import NamingLint.Declaration.Parameter
import NamingLint.Declaration.Property
import NamingLint.Declaration.TypeName

/-!
# NamingLint — declarations of a kind

* `Detector` — a search for the declarations of one kind. Rules know declarations only through one,
  so a better search can take the place of another.
* `Kind.declarations` — finds the declarations of one kind in a stripped text, ordered by offset.
* `Kind.detector` — the search that comes with the kind.
-/

namespace NamingLint

/-- A search for the declarations of one kind. -/
structure Detector where
  name : String
  kind : Kind
  /-- The declarations in a stripped text. -/
  detect : Text → List Declaration

namespace Kind

/-- Name of the search for this kind. -/
def detectorName : Kind → String
  | bindings => "variables"
  | functions => "functions"
  | classes => "classes"
  | properties => "properties"
  | parameters => "parameters"
  | typeAliases => "type-aliases"
  | interfaces => "interfaces"
  | enums => "enums"

/-- The declarations of this kind in a text. -/
def declarations : Kind → Text → List Declaration
  | bindings => variableDeclarations
  | functions => functionDeclarations
  | classes => classDeclarations
  | properties => propertyDeclarations
  | parameters => parameterDeclarations
  | typeAliases => typeAliasDeclarations
  | interfaces => interfaceDeclarations
  | enums => enumDeclarations

/-- The search that comes with this kind. -/
def detector (k : Kind) : Detector :=
  ⟨k.detectorName, k, k.declarations⟩

end Kind

end NamingLint
