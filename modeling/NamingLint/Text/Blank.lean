import NamingLint.Text.Basic

/-!
# NamingLint — blank characters

The characters with the Unicode property `White_Space`, and trimming by them.
-/

namespace NamingLint.Text

/-- White space in the sense of the Unicode property `White_Space`. -/
def isBlank (c : Char) : Bool :=
  let n := c.toNat
  (0x9 ≤ n && n ≤ 0xd) || n == 0x20 || n == 0x85 || n == 0xa0 || n == 0x1680 ||
    (0x2000 ≤ n && n ≤ 0x200a) || n == 0x2028 || n == 0x2029 || n == 0x202f || n == 0x205f ||
    n == 0x3000

/-- The text without the blanks in front. -/
def trimStart (t : Text) : Text :=
  t.dropWhile isBlank

/-- The text without the blanks at its end. -/
def trimEnd (t : Text) : Text :=
  (t.reverse.dropWhile isBlank).reverse

/-- The text without the blanks at either end. -/
def trim (t : Text) : Text :=
  trimEnd (trimStart t)

end NamingLint.Text
