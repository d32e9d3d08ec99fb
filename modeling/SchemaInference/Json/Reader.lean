import SchemaInference.Json.Basic
import SchemaInference.Stack

/-!
Reading JSON. The grammar is the usual one, with the three names for numbers that are not finite;
the last of equal names in an object gives the value and the first the place. A text that is no JSON
is refused at a position, counted in characters from zero. Lists and objects in each other are read
by nested calls, for which there has to be room.
-/

namespace SchemaInference

namespace Json

/-- Why a text is no JSON. -/
inductive SyntaxCause where
  | value
  | comma
  | colon
  | name
  | escape
  | unicodeEscape
  | unterminated
  | control
  | extra
  | byteOrderMark
  deriving DecidableEq, Repr

/-- What JSON values are nested in. -/
inductive Nest where
  | array
  | object
  deriving DecidableEq, Repr

/-- The name of what values are nested in. -/
def Nest.name : Nest → String
  | .array => "array"
  | .object => "object"

/-- A refusal of a text: a fault of syntax at a position, a whole number of too many digits, or one
list or object too many in others. -/
inductive Fault where
  | malformed (cause : SyntaxCause) (position : Nat)
  | tooManyDigits (count : Nat)
  | tooNested (nest : Nest)
  deriving DecidableEq, Repr

namespace SyntaxCause

/-- The sentence for a cause. -/
def message : SyntaxCause → String
  | .value => "Expecting value"
  | .comma => "Expecting ',' delimiter"
  | .colon => "Expecting ':' delimiter"
  | .name => "Expecting property name enclosed in double quotes"
  | .escape => "Invalid \\escape"
  | .unicodeEscape => "Invalid \\uXXXX escape"
  | .unterminated => "Unterminated string starting at"
  | .control => "Invalid control character at"
  | .extra => "Extra data"
  | .byteOrderMark => "Unexpected UTF-8 BOM (decode using utf-8-sig)"

end SyntaxCause

/-- The line of a position in a text, and its column in the line, both counted from one. -/
def lineAndColumn (cs : List Char) (position : Nat) : Nat × Nat :=
  (cs.take position).foldl
    (fun (line, column) c => if c = '\n' then (line + 1, 1) else (line, column + 1)) (1, 1)

/-- What is said of a refusal of the text `cs`. -/
def Fault.message (cs : List Char) : Fault → String
  | .malformed cause position =>
    let (line, column) := lineAndColumn cs position
    cause.message ++ ": line " ++ toString line ++ " column " ++ toString column
      ++ " (char " ++ toString position ++ ")"
  | .tooManyDigits count =>
    "Exceeds the limit (" ++ toString Number.maxDigits
      ++ " digits) for integer string conversion: value has "
      ++ toString count ++ " digits; use sys.set_int_max_str_digits() to increase the limit"
  | .tooNested nest =>
    Refusal.tooDeep.message ++ " while decoding a JSON " ++ nest.name ++ " from a unicode string"

/-- A blank of JSON. -/
def isBlank (c : Char) : Bool := c == ' ' || c == '\t' || c == '\n' || c == '\r'

/-- A position in a text and the text from there on. -/
structure Cursor where
  position : Nat
  rest : List Char

namespace Cursor

/-- A cursor that has read some characters, with what is left. -/
def advance (c : Cursor) (count : Nat) (rest : List Char) : Cursor := ⟨c.position + count, rest⟩

/-- The cursor where only `rest` is left of the text. -/
def jump (c : Cursor) (rest : List Char) : Cursor := c.advance (c.rest.length - rest.length) rest

/-- The cursor after the blanks of JSON. -/
def skipBlanks (c : Cursor) : Cursor := c.jump (c.rest.dropWhile isBlank)

/-- A fault at the place where a cursor stands. -/
def fault (c : Cursor) (cause : SyntaxCause) : Fault := .malformed cause c.position

end Cursor

/-- The value of a hexadecimal digit, in either letter case. -/
def hexDigit? (c : Char) : Option Nat :=
  if '0' ≤ c && c ≤ '9' then some (c.toNat - '0'.toNat)
  else if 'a' ≤ c && c ≤ 'f' then some (c.toNat - 'a'.toNat + 10)
  else if 'A' ≤ c && c ≤ 'F' then some (c.toNat - 'A'.toNat + 10)
  else none

/-- The number of four hexadecimal digits at the front. -/
def hexUnit? : List Char → Option Nat
  | a :: b :: c :: d :: _ => do
    let a ← hexDigit? a
    let b ← hexDigit? b
    let c ← hexDigit? c
    let d ← hexDigit? d
    some (((a * 16 + b) * 16 + c) * 16 + d)
  | _ => none

/-- The character of a code point; half of a surrogate pair is no character. -/
def scalar (n : Nat) : Char := if 0xD800 ≤ n && n < 0xE000 then '\uFFFD' else Char.ofNat n

/-- What a single character after a backslash stands for. -/
def simpleEscape? : Char → Option Char
  | '"' => some '"'
  | '\\' => some '\\'
  | '/' => some '/'
  | 'b' => some '\x08'
  | 'f' => some '\x0c'
  | 'n' => some '\n'
  | 'r' => some '\r'
  | 't' => some '\t'
  | _ => none

/-- What stands after the first half of a surrogate pair. -/
inductive SecondHalf where
  | low (n : Nat)
  | broken
  | other

/-- An escape counts as a second half only when it is followed by a character more. -/
def secondHalf : List Char → SecondHalf
  | '\\' :: 'u' :: rest =>
    if (rest.drop 4).isEmpty then .other else
    match hexUnit? rest with
    | some n => if 0xDC00 ≤ n && n < 0xE000 then .low n else .other
    | none => .broken
  | _ => .other

/-- The rest of a string that was opened at `start`. Four digits must be followed by one character
more, so that a string cut off in an escape is refused there. -/
def readString (start : Nat) (done : List Char) (steps : Nat) (c : Cursor) :
    Except Fault (String × Cursor) :=
  match steps, c.rest with
  | 0, _ | _, [] => .error (.malformed .unterminated start)
  | _ + 1, '"' :: rest => .ok (String.ofList done.reverse, c.advance 1 rest)
  | steps + 1, '\\' :: rest =>
    match rest with
    | [] => .error (.malformed .unterminated start)
    | 'u' :: rest =>
      if (rest.drop 4).isEmpty then .error (.malformed .unicodeEscape (c.position + 1)) else
      match hexUnit? rest with
      | none => .error (.malformed .unicodeEscape (c.position + 1))
      | some n =>
        let rest := rest.drop 4
        if 0xD800 ≤ n && n < 0xDC00 then
          match secondHalf rest with
          | .low low =>
            let point := 0x10000 + (n - 0xD800) * 0x400 + (low - 0xDC00)
            readString start (Char.ofNat point :: done) steps (c.advance 12 (rest.drop 6))
          | .broken => .error (.malformed .unicodeEscape (c.position + 7))
          | .other => readString start ('\uFFFD' :: done) steps (c.advance 6 rest)
        else readString start (scalar n :: done) steps (c.advance 6 rest)
    | e :: rest =>
      match simpleEscape? e with
      | some escaped => readString start (escaped :: done) steps (c.advance 2 rest)
      | none => .error (.malformed .escape c.position)
  | steps + 1, other :: rest =>
    if other.toNat < 0x20 then .error (.malformed .control c.position)
    else readString start (other :: done) steps (c.advance 1 rest)

/-- A number as it is written: its sign, the digits of its whole part and of its fraction, and the
sign and the digits of its power of ten. A part that is missing has no digits. -/
structure Numeral where
  negative : Bool
  whole : List Char
  fraction : List Char
  below : Bool
  power : List Char

/-- The value of a number: with a fraction or a power of ten it is binary64. -/
def Numeral.value (n : Numeral) : Except Fault Json :=
  if n.fraction.isEmpty && n.power.isEmpty then
    if Number.maxDigits < n.whole.length then .error (.tooManyDigits n.whole.length)
    else
      let whole := Number.ofDigits n.whole
      .ok (.int (if n.negative then -(whole : Int) else whole))
  else
    let exponent : Int := Number.ofDigits n.power
    .ok (.real (Binary64.ofDecimal n.negative (Number.ofDigits (n.whole ++ n.fraction))
      ((if n.below then -exponent else exponent) - n.fraction.length)))

/-- The digits at the front, if there are any, and what stands after them. -/
def splitDigits? (cs : List Char) : Option (List Char × List Char) :=
  let digits := cs.takeWhile Number.isDigit
  if digits.isEmpty then none else some (digits, cs.dropWhile Number.isDigit)

/-- The digits of a whole number, to which nothing belongs after a leading zero. -/
def splitWhole? : List Char → Option (List Char × List Char)
  | '0' :: rest => some (['0'], rest)
  | cs => splitDigits? cs

/-- The digits of a fraction. -/
def splitFraction? : List Char → Option (List Char × List Char)
  | '.' :: rest => splitDigits? rest
  | _ => none

/-- Whether a minus stands in front. -/
def splitMinus : List Char → Bool × List Char
  | '-' :: rest => (true, rest)
  | cs => (false, cs)

/-- The sign of a power of ten, which may be a plus. -/
def splitSign : List Char → Bool × List Char
  | '+' :: rest => (false, rest)
  | cs => splitMinus cs

/-- The sign and the digits of a power of ten. -/
def splitPower? : List Char → Option ((Bool × List Char) × List Char)
  | e :: rest =>
    if e = 'e' || e = 'E' then do
      let (below, rest) := splitSign rest
      let (digits, rest) ← splitDigits? rest
      some ((below, digits), rest)
    else none
  | [] => none

/-- The number at the front, if there is one, and what stands after it. A point or a letter that no
digits follow is not part of it. -/
def splitNumeral? (cs : List Char) : Option (Numeral × List Char) := do
  let (negative, cs) := splitMinus cs
  let (whole, cs) ← splitWhole? cs
  let (fraction, cs) := (splitFraction? cs).getD ([], cs)
  let ((below, power), cs) := (splitPower? cs).getD ((false, []), cs)
  some ({ negative, whole, fraction, below, power }, cs)

/-- The words that stand for values. -/
def words : List (String × Json) :=
  [("null", .null), ("true", .bool true), ("false", .bool false), ("NaN", .real (.notANumber 0)),
    ("Infinity", .real (.infinite false)), ("-Infinity", .real (.infinite true))]

/-- The value of the word at the front, if there is one, and what stands after it. -/
def splitWord? (cs : List Char) : Option (Json × List Char) :=
  words.findSome? fun (w, j) =>
    if w.toList.isPrefixOf cs then some (j, cs.drop w.length) else none

/-- The value of the word or the number at the front, if there is one, and what stands after it. -/
def splitScalar? (cs : List Char) : Option (Except Fault Json × List Char) :=
  (splitWord? cs).map (fun (j, rest) => (.ok j, rest))
    <|> (splitNumeral? cs).map fun (n, rest) => (n.value, rest)

/-- The value of the word or the number at the cursor. -/
def readScalar (c : Cursor) : Except Fault (Json × Cursor) :=
  match splitScalar? c.rest with
  | some (value, rest) => value.map fun j => (j, c.jump rest)
  | none => .error (c.fault .value)

mutual

/-- A value at the cursor, in so many others. Every step takes a character or descends into a
value. -/
def readValue (room : Room) (height : Nat) (steps : Nat) (c : Cursor) :
    Except Fault (Json × Cursor) :=
  match steps with
  | 0 => .error (c.fault .value)
  | steps + 1 =>
    match c.rest with
    | '"' :: rest => do
      let (s, c) ← readString c.position [] (rest.length + 1) (c.advance 1 rest)
      .ok (.str s, c)
    | '\x7b' :: rest =>
      if room.fits (height + 1) then
        let c := (c.advance 1 rest).skipBlanks
        match c.rest with
        | '\x7d' :: rest => .ok (.obj [], c.advance 1 rest)
        | _ => readMembers room (height + 1) [] steps c
      else .error (.tooNested .object)
    | '[' :: rest =>
      if room.fits (height + 1) then
        let c := (c.advance 1 rest).skipBlanks
        match c.rest with
        | ']' :: rest => .ok (.arr [], c.advance 1 rest)
        | _ => readItems room (height + 1) [] steps c
      else .error (.tooNested .array)
    | _ => readScalar c

/-- The members of an object from a name on, after the reversed `done`. -/
def readMembers (room : Room) (height : Nat) (done : List (String × Json)) (steps : Nat)
    (c : Cursor) : Except Fault (Json × Cursor) :=
  match steps with
  | 0 => .error (c.fault .value)
  | steps + 1 =>
    match c.rest with
    | '"' :: rest => do
      let (name, c) ← readString c.position [] (rest.length + 1) (c.advance 1 rest)
      let c := c.skipBlanks
      match c.rest with
      | ':' :: rest => do
        let (j, c) ← readValue room height steps (c.advance 1 rest).skipBlanks
        let c := c.skipBlanks
        match c.rest with
        | '\x7d' :: rest =>
          .ok (.obj (Assoc.ofPairs ((name, j) :: done).reverse), c.advance 1 rest)
        | ',' :: rest =>
          readMembers room height ((name, j) :: done) steps (c.advance 1 rest).skipBlanks
        | _ => .error (c.fault .comma)
      | _ => .error (c.fault .colon)
    | _ => .error (c.fault .name)

/-- The items of an array from an item on, after the reversed `done`. -/
def readItems (room : Room) (height : Nat) (done : List Json) (steps : Nat) (c : Cursor) :
    Except Fault (Json × Cursor) :=
  match steps with
  | 0 => .error (c.fault .value)
  | steps + 1 => do
    let (j, c) ← readValue room height steps c
    let c := c.skipBlanks
    match c.rest with
    | ']' :: rest => .ok (.arr (j :: done).reverse, c.advance 1 rest)
    | ',' :: rest => readItems room height (j :: done) steps (c.advance 1 rest).skipBlanks
    | _ => .error (c.fault .comma)

end

/-- The value of a text that is JSON as a whole, blanks around it apart. -/
def read (cs : List Char) (room : Room := none) : Except Fault Json :=
  match cs with
  | '\uFEFF' :: _ => .error (.malformed .byteOrderMark 0)
  | cs => do
    let (j, c) ← readValue room 0 (2 * cs.length + 2) (Cursor.skipBlanks ⟨0, cs⟩)
    let c := c.skipBlanks
    if c.rest.isEmpty then .ok j else .error (c.fault .extra)

end Json

end SchemaInference
