import NamingLint.Path

/-!
# NamingLint — file types

Files are classified by the extension of their names, letter case aside (ASCII letters only).
-/

namespace NamingLint

/-- Category of a file. -/
inductive FileType where
  | typescript
  | javascript
  | html
  | css
  | markdown
  | yaml
  | json
  | unknown
  deriving DecidableEq, Repr

namespace FileType

/-- Every file type. -/
def all : List FileType :=
  [typescript, javascript, html, css, markdown, yaml, json, unknown]

/-- The word for a file type. -/
def label : FileType → String
  | typescript => "typescript"
  | javascript => "javascript"
  | html => "html"
  | css => "css"
  | markdown => "markdown"
  | yaml => "yaml"
  | json => "json"
  | unknown => "unknown"

/-- Are files of this type checked? -/
def isSource : FileType → Bool
  | typescript | javascript | html | css => true
  | markdown | yaml | json | unknown => false

/-- The type that a lower-case extension stands for. -/
def ofExtension (ext : String) : FileType :=
  if ext ∈ ["ts", "tsx", "mts", "cts"] then typescript
  else if ext ∈ ["js", "jsx", "mjs", "cjs"] then javascript
  else if ext ∈ ["html", "htm"] then html
  else if ext ∈ ["css"] then css
  else if ext ∈ ["md"] then markdown
  else if ext ∈ ["yaml", "yml"] then yaml
  else if ext ∈ ["json"] then json
  else unknown

/-- The type of a file, by its name. -/
def ofPath (p : Path) : FileType :=
  match p.extension? with
  | none => unknown
  | some ext => ofExtension (String.ofList (ext.toList.map Char.toLower))

end FileType

end NamingLint
