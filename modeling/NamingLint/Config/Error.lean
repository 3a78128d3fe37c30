import NamingLint.Form.Config
import NamingLint.Path

/-!
# NamingLint — loading configurations

* `ConfigError` — why a configuration cannot be had; `ConfigError.message` is its wording.
* `Config.parse` — a configuration from its text.
-/

namespace NamingLint

/-- Why a configuration cannot be had. -/
inductive ConfigError where
  /-- There is no file. -/
  | missing (path : Path)
  /-- The file cannot be read. -/
  | unreadable (path : Path) (error : String)
  /-- The text is no configuration. -/
  | malformed (message : String)
  deriving DecidableEq, Repr

namespace ConfigError

/-- The wording of an error. -/
def message : ConfigError → String
  | missing path =>
    s!"No configuration found at {path.text}; create one before running the analysis"
  | unreadable path error => s!"Failed to read config file {path.text}: {error}"
  | malformed message => s!"Failed to parse config: {message}"

end ConfigError

/-- The configuration that a text holds. -/
def Config.parse (t : Text) : Except ConfigError Config :=
  (codec.parse t).mapError fun f => .malformed (f.describe t)

end NamingLint
