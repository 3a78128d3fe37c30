import NamingLint.Config.Basic
import NamingLint.Form.Word
import NamingLint.Json.Record

/-!
# NamingLint — written configurations

Every member of a configuration may be absent. A kind without a convention is left out in writing and
may be `null` in reading.
-/

namespace NamingLint

open Json (Codec Members)

/-! ## Conventions of kinds -/

/-- The key of a kind in a configuration. -/
def Kind.casingKey : Kind → String
  | bindings => "variableCasing"
  | functions => "methodCasing"
  | classes => "classCasing"
  | properties => "propertyCasing"
  | parameters => "parameterCasing"
  | typeAliases => "typeCasing"
  | interfaces => "interfaceCasing"
  | enums => "enumCasing"

namespace Casing

/-- The members of an assignment of conventions and their forms. -/
def members : Members Kind fun _ => Option Convention where
  name := "CasingConfig"
  keys := Kind.all
  mem_keys := Kind.mem_all
  label := Kind.casingKey
  form _ := Convention.codec.orNull
  absent _ := some none
  isOmitted _ c := c.isNone

/-- The form of an assignment of conventions. -/
def codec : Codec Casing :=
  members.codec.via PerKind.get PerKind.ofFn

end Casing

/-! ## Options -/

namespace Options

/-- The members of the options. -/
inductive Key where
  | silent
  | noAny
  deriving DecidableEq, Repr

/-- The type of a member. -/
abbrev Member (_ : Key) : Type := Bool

/-- The members of the options and their forms. -/
def members : Members Key Member where
  name := "OptionsConfig"
  keys := [.silent, .noAny]
  mem_keys k := by cases k <;> simp
  label
    | .silent => "silent"
    | .noAny => "noAny"
  form _ := Codec.flag
  absent _ := some false

/-- Options by their members. -/
def toMembers (o : Options) : (k : Key) → Member k
  | .silent => o.silent
  | .noAny => o.noAny

/-- The form of the options. -/
def codec : Codec Options :=
  members.codec.via toMembers fun r => ⟨r .silent, r .noAny⟩

end Options

/-! ## Configurations -/

namespace Config

/-- The members of a configuration. -/
inductive Key where
  | casing
  | options
  | ignoredDirectories
  | ignoredFiles
  deriving DecidableEq, Repr

/-- The type of a member. -/
abbrev Member : Key → Type
  | .casing => Casing
  | .options => Options
  | .ignoredDirectories => List String
  | .ignoredFiles => List String

/-- A configuration by its members. -/
def toMembers (c : Config) : (k : Key) → Member k
  | .casing => c.casing
  | .options => c.options
  | .ignoredDirectories => c.ignoredDirectories
  | .ignoredFiles => c.ignoredFiles

/-- The members of a configuration and their forms. -/
def members : Members Key Member where
  name := "AnalysisConfig"
  keys := [.casing, .options, .ignoredDirectories, .ignoredFiles]
  mem_keys k := by cases k <;> simp
  label
    | .casing => "casing"
    | .options => "options"
    | .ignoredDirectories => "ignoredDirectories"
    | .ignoredFiles => "ignoredFiles"
  form
    | .casing => Casing.codec
    | .options => Options.codec
    | .ignoredDirectories => Codec.string.list
    | .ignoredFiles => Codec.string.list
  absent k := some (standard.toMembers k)

/-- The form of a configuration. -/
def codec : Codec Config :=
  members.codec.via toMembers fun r =>
    ⟨r .casing, r .options, r .ignoredDirectories, r .ignoredFiles⟩

end Config

end NamingLint
