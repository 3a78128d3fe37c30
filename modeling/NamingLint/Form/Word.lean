import NamingLint.Convention
import NamingLint.FileType
import NamingLint.Json.Codec
import NamingLint.Kind

/-!
# NamingLint — written words

Kinds, conventions and file types are written as words. The Pascal convention may be spelled in two
ways.
-/

namespace NamingLint

open Json (Codec)

/-- The form of a kind. -/
def Kind.codec : Codec Kind :=
  Codec.word label (Codec.labelled label all)

/-- The spellings of conventions. -/
def Convention.spellings : List (String × Convention) :=
  [("camelCase", camel), ("PascalCase", pascal), ("pascalCase", pascal), ("snake_case", snake),
   ("kebab-case", kebab)]

/-- The form of a convention. -/
def Convention.codec : Codec Convention :=
  Codec.word label spellings

/-- The form of a file type. -/
def FileType.codec : Codec FileType :=
  Codec.word label (Codec.labelled label all)

end NamingLint
