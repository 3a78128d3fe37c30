/-!
# NamingLint — columns

Cells of a table, filled up with spaces to a least width.
-/

namespace NamingLint.Text

/-- The cell with its content to the left. -/
def padEnd (width : Nat) (s : String) : String :=
  s ++ String.ofList (List.replicate (width - s.length) ' ')

/-- The cell with its content to the right. -/
def padStart (width : Nat) (s : String) : String :=
  String.ofList (List.replicate (width - s.length) ' ') ++ s

end NamingLint.Text
