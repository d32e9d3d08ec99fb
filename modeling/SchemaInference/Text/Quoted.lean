import SchemaInference.Text.Printable

/-!
Quoted texts. A text stands between single quotes, or between double quotes when it holds a single
one and no double one; what cannot be shown as it is stands as a backslash escape.
-/

namespace SchemaInference.Text

/-- The lower-case hexadecimal digits of a number, padded with zeros to a width. -/
def hexDigits (width n : Nat) : List Char :=
  let digits := Nat.toDigits 16 n
  List.replicate (width - digits.length) '0' ++ digits

/-- The quote for a text: double if it has a single quote and no double one, else single. -/
def quoteFor (cs : List Char) : Char :=
  if cs.contains '\'' && !cs.contains '"' then '"' else '\''

/-- One character between quotes. Two, four or eight hexadecimal digits stand for an unprintable
character, as few as its code point fits into. -/
def quoteChar (quote c : Char) : List Char :=
  if c == quote || c == '\\' then ['\\', c]
  else if c == '\t' then ['\\', 't']
  else if c == '\n' then ['\\', 'n']
  else if c == '\r' then ['\\', 'r']
  else if isPrintable c then [c]
  else if c.toNat ≤ 0xFF then '\\' :: 'x' :: hexDigits 2 c.toNat
  else if c.toNat ≤ 0xFFFF then '\\' :: 'u' :: hexDigits 4 c.toNat
  else '\\' :: 'U' :: hexDigits 8 c.toNat

/-- A text in quotes. -/
def quoted (s : String) : String :=
  let cs := s.toList
  let quote := quoteFor cs
  String.ofList (quote :: cs.flatMap (quoteChar quote) ++ [quote])

/-- One byte between quotes: a printable ASCII character as itself but for one that is escaped, any
other byte in hexadecimal. -/
def quoteByte (escaped : Char) (b : UInt8) : List Char :=
  let c := Char.ofNat b.toNat
  if c == escaped || c == '\\' then ['\\', c]
  else if c == '\t' then ['\\', 't']
  else if c == '\n' then ['\\', 'n']
  else if c == '\r' then ['\\', 'r']
  else if 0x20 ≤ b.toNat && b.toNat < 0x7F then [c]
  else '\\' :: 'x' :: hexDigits 2 b.toNat

/-- The quote for bytes. -/
def quoteForBytes (bytes : List UInt8) : Char := quoteFor (bytes.map fun b => Char.ofNat b.toNat)

/-- Bytes in quotes, marked by a leading `b`. -/
def quotedBytes (bytes : List UInt8) : String :=
  let quote := quoteForBytes bytes
  String.ofList ('b' :: quote :: bytes.flatMap (quoteByte quote) ++ [quote])

/-- Bytes in quotes, marked by a leading `b`, a single quote among them escaped whatever the quotes
are. -/
def quotedChangingBytes (bytes : List UInt8) : String :=
  let quote := quoteForBytes bytes
  String.ofList ('b' :: quote :: bytes.flatMap (quoteByte '\'') ++ [quote])

end SchemaInference.Text
