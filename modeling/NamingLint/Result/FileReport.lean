import NamingLint.FileType
import NamingLint.Tally
import NamingLint.Violation

/-!
# NamingLint — what an analysis says about one file
-/

namespace NamingLint

/-- How the analysis of a file ended. -/
inductive FileStatus where
  /-- Every enabled check ran. -/
  | completed
  /-- The file is no source file; nothing ran. -/
  | notSource
  /-- A marker in the file switches its checks off. -/
  | suppressed
  /-- The file could not be read. -/
  | unreadable (error : String)
  deriving DecidableEq, Repr

/-- What an analysis says about one file. -/
@[ext] structure FileReport where
  path : Path
  type : FileType
  status : FileStatus
  tallies : TallySet
  violations : List Violation
  findings : List Finding
  deriving DecidableEq, Repr

namespace FileReport

/-- A report without counts and entries. -/
def blank (path : Path) (type : FileType) (status : FileStatus) : FileReport :=
  ⟨path, type, status, TallySet.zero, [], []⟩

end FileReport

end NamingLint
