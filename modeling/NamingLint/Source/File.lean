import NamingLint.FileType
import NamingLint.Location
import NamingLint.Source.Region

/-!
# NamingLint — source files

A source file is its text together with the stripped text, in which declarations are searched.

* `SourceFile.locate` — the line of the file that shows a declaration: the first line that holds
  its text, or, where stripping changed that text, the line of its offset.
-/

namespace NamingLint

/-- A readable file that is being checked. -/
structure SourceFile where
  path : Path
  /-- The path as messages show it. -/
  shown : Path
  type : FileType
  content : Text
  /-- The lines of the content. -/
  lines : List Text
  lines_eq : lines = content.lines
  /-- The content without comments and literal bodies. -/
  stripped : Text
  stripped_eq : stripped = Source.strip content

namespace SourceFile

/-- A file below a root; messages show its path from the root on. -/
def ofContent (path root : Path) (type : FileType) (content : Text) : SourceFile where
  path := path
  shown := path.relativeTo root
  type := type
  content := content
  lines := content.lines
  lines_eq := rfl
  stripped := Source.strip content
  stripped_eq := rfl

/-- The number of the line that holds a byte of the stripped text. -/
def lineAt (f : SourceFile) (offset : Nat) : Nat :=
  f.stripped.lineAt offset

/-- The first line of a text, the text itself if it has none. -/
def needle (matched : Text) : Text :=
  matched.lines.headD matched

/-- The number of the first line that holds a text. -/
def lineHolding? (f : SourceFile) (needle : Text) : Option Nat :=
  (f.lines.findIdx? (Text.contains needle)).map (· + 1)

/-- The line that shows a declaration, given its text and its offset in the stripped text. -/
def locate (f : SourceFile) (matched : Text) (offset : Nat) : Nat :=
  if needle matched = [] then f.lineAt offset
  else (f.lineHolding? (needle matched)).getD (f.lineAt offset)

/-- The location of a declaration. -/
def location (f : SourceFile) (matched : Text) (offset : Nat) : Location :=
  ⟨f.path, f.locate matched offset⟩

end SourceFile

end NamingLint
