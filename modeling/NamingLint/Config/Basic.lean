import NamingLint.Convention
import NamingLint.Kind

/-!
# NamingLint — configurations

A configuration assigns conventions to kinds, switches options, and names what a walk leaves out.
-/

namespace NamingLint

/-- The convention assigned to each kind; a kind without one is not checked. -/
abbrev Casing := PerKind (Option Convention)

/-- Switches. -/
@[ext] structure Options where
  /-- Tallies without violations are logged at a lower level. -/
  silent : Bool
  /-- The type `any` is forbidden. -/
  noAny : Bool
  deriving DecidableEq, Repr

/-- What to check, and where. -/
@[ext] structure Config where
  casing : Casing
  options : Options
  /-- Names of directories that a walk does not enter. -/
  ignoredDirectories : List String
  /-- Names of files that a walk passes over. -/
  ignoredFiles : List String
  deriving DecidableEq, Repr

namespace Casing

/-- No kind is checked. -/
def unset : Casing :=
  PerKind.ofFn fun _ => none

end Casing

namespace Options

/-- Every switch off. -/
def off : Options := ⟨false, false⟩

end Options

namespace Config

/-- Name of the configuration file in the root of a project. -/
def fileName : String := ".labinsight"

/-- The directories left out unless a configuration says otherwise. -/
def standardDirectories : List String :=
  ["node_modules", ".git"]

/-- The configuration that an empty object stands for. -/
def standard : Config :=
  ⟨Casing.unset, Options.off, standardDirectories, []⟩

/-- The convention assigned to a kind. -/
def conventionFor (c : Config) (k : Kind) : Option Convention :=
  c.casing.get k

/-- The kinds that have a convention, in report order. -/
def enabled (c : Config) : List (Kind × Convention) :=
  Kind.all.filterMap fun k => (c.conventionFor k).map fun v => (k, v)

/-- Does a walk leave directories of this name out? -/
def ignoresDirectory (c : Config) (name : String) : Bool :=
  c.ignoredDirectories.contains name

/-- Does a walk leave files of this name out? -/
def ignoresFile (c : Config) (name : String) : Bool :=
  c.ignoredFiles.contains name

end Config

end NamingLint
