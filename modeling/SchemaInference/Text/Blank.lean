/-!
Blank characters and trimming. Unicode's white space is one class; the blanks of a label or a line
also count the four information separators.
-/

namespace SchemaInference.Text

/-- White space in Unicode's sense (property `White_Space`). -/
def isSpace (c : Char) : Bool :=
  let n := c.toNat
  (9 ≤ n && n ≤ 13) || n == 0x20 || n == 0x85 || n == 0xA0 || n == 0x1680
    || (0x2000 ≤ n && n ≤ 0x200A) || n == 0x2028 || n == 0x2029 || n == 0x202F
    || n == 0x205F || n == 0x3000

/-- A blank is white space or one of the four information separators. -/
def isBlank (c : Char) : Bool :=
  isSpace c || (0x1C ≤ c.toNat && c.toNat ≤ 0x1F)

/-- Drops the characters of a class at both ends and nowhere else. -/
def trimBy (inClass : Char → Bool) (cs : List Char) : List Char :=
  ((cs.dropWhile inClass).reverse.dropWhile inClass).reverse

/-- A text without the blanks at its ends. -/
def trim (s : String) : String := String.ofList (trimBy isBlank s.toList)

end SchemaInference.Text
