/-!
Line breaks. Reading a file turns the three customary line ends into one; cutting a text into
lines honours every character that ends a line, of which there are ten.
-/

namespace SchemaInference.Text

/-- A carriage return, alone or before a line feed, becomes one line feed. -/
def normalizeBreaks : List Char → List Char
  | '\r' :: '\n' :: rest => '\n' :: normalizeBreaks rest
  | '\r' :: rest => '\n' :: normalizeBreaks rest
  | c :: rest => c :: normalizeBreaks rest
  | [] => []

/-- The characters that end a line: line feed, vertical tab, form feed, carriage return, the file,
group and record separators, next line, and Unicode's line and paragraph separators. -/
def endsLine (c : Char) : Bool :=
  let n := c.toNat
  (0x0A ≤ n && n ≤ 0x0D) || (0x1C ≤ n && n ≤ 0x1E) || n == 0x85 || n == 0x2028 || n == 0x2029

/-- Lines of a text whose current line already holds `line`, reversed. -/
def linesFrom (line : List Char) : List Char → List (List Char)
  | '\r' :: '\n' :: rest => line.reverse :: linesFrom [] rest
  | c :: rest =>
    if endsLine c then line.reverse :: linesFrom [] rest else linesFrom (c :: line) rest
  | [] => if line.isEmpty then [] else [line.reverse]

/-- The lines of a text without their ends; an end that closes the text opens no further line. -/
def lines (cs : List Char) : List (List Char) := linesFrom [] cs

end SchemaInference.Text
