import SchemaInference.Json.Basic
import SchemaInference.Text.Quoted

/-!
Writing JSON in ASCII: on one line, or with one item a line and an indent for every level.
-/

namespace SchemaInference

namespace Json

/-- A code point as one escape, or as the two of a surrogate pair. -/
def unicodeEscape (n : Nat) : List Char :=
  if n < 0x10000 then '\\' :: 'u' :: Text.hexDigits 4 n
  else
    let above := n - 0x10000
    '\\' :: 'u' :: Text.hexDigits 4 (0xD800 + above / 0x400)
      ++ '\\' :: 'u' :: Text.hexDigits 4 (0xDC00 + above % 0x400)

/-- One character of a string. All but printable ASCII is escaped. -/
def escapeChar (c : Char) : List Char :=
  if c = '"' then ['\\', '"']
  else if c = '\\' then ['\\', '\\']
  else if c = '\n' then ['\\', 'n']
  else if c = '\r' then ['\\', 'r']
  else if c = '\t' then ['\\', 't']
  else if c = '\x08' then ['\\', 'b']
  else if c = '\x0c' then ['\\', 'f']
  else if ' ' ≤ c && c ≤ '~' then [c]
  else unicodeEscape c.toNat

/-- A text between double quotes. -/
def stringText (s : String) : String := String.ofList ('"' :: s.toList.flatMap escapeChar ++ ['"'])

/-- A number by its shortest text. The numbers that JSON has no text for have names. -/
def realText : Binary64 → String
  | .notANumber _ => "NaN"
  | .infinite negative => if negative then "-Infinity" else "Infinity"
  | x => x.text

/-- How values are set: what stands before an item on a level, and what stands between items and
after a name. -/
structure Setting where
  indent : Option Nat
  between : String
  afterName : String

/-- Everything on one line without blanks. -/
def compact : Setting := ⟨none, ",", ":"⟩

/-- An item a line, two blanks for every level. -/
def indented : Setting := ⟨some 2, ",", ": "⟩

/-- A line end and the indent of a level, if items stand on lines of their own. -/
def Setting.breakAt (s : Setting) (level : Nat) : String :=
  match s.indent with
  | none => ""
  | some width => String.ofList ('\n' :: List.replicate (level * width) ' ')

mutual

/-- Puts the text of a value on a level after `done`. -/
def writeTo (s : Setting) (level : Nat) (done : String) : Json → String
  | .null => done ++ "null"
  | .bool b => done ++ (if b then "true" else "false")
  | .int n => done ++ toString n
  | .real x => done ++ realText x
  | .str t => done ++ stringText t
  | .arr [] => done ++ "[]"
  | .arr (j :: rest) =>
    let done := writeTo s (level + 1) (done ++ "[" ++ s.breakAt (level + 1)) j
    writeItems s (level + 1) done rest ++ s.breakAt level ++ "]"
  | .obj [] => done ++ "\x7b\x7d"
  | .obj ((name, j) :: rest) =>
    let done := done ++ "\x7b" ++ s.breakAt (level + 1) ++ stringText name ++ s.afterName
    let done := writeTo s (level + 1) done j
    writeMembers s (level + 1) done rest ++ s.breakAt level ++ "\x7d"

/-- The items of a list after the first, each on its own line if lines are broken. -/
def writeItems (s : Setting) (level : Nat) (done : String) : List Json → String
  | [] => done
  | j :: rest =>
    let done := writeTo s level (done ++ s.between ++ s.breakAt level) j
    writeItems s level done rest

/-- The members of an object after the first, each on its own line if lines are broken. -/
def writeMembers (s : Setting) (level : Nat) (done : String) : List (String × Json) → String
  | [] => done
  | (name, j) :: rest =>
    let done := done ++ s.between ++ s.breakAt level ++ stringText name ++ s.afterName
    writeMembers s level (writeTo s level done j) rest

end

/-- The text of a value. -/
def write (s : Setting) (j : Json) : String := writeTo s 0 "" j

end Json

end SchemaInference
