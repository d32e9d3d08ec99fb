import SchemaInference.Text.Blank

/-!
Whole numbers in the decimal digits of any script. The digits of a script follow each other, from
zero on.
-/

namespace SchemaInference.Text

/-- The zeros of Unicode 14: the first of every ten characters of its category `Nd`, ascending. -/
def zeros : List Nat := [
  0x30, 0x660, 0x6F0, 0x7C0, 0x966, 0x9E6, 0xA66, 0xAE6, 0xB66, 0xBE6, 0xC66, 0xCE6, 0xD66,
  0xDE6, 0xE50, 0xED0, 0xF20, 0x1040, 0x1090, 0x17E0, 0x1810, 0x1946, 0x19D0, 0x1A80, 0x1A90,
  0x1B50, 0x1BB0, 0x1C40, 0x1C50, 0xA620, 0xA8D0, 0xA900, 0xA9D0, 0xA9F0, 0xAA50, 0xABF0, 0xFF10,
  0x104A0, 0x10D30, 0x11066, 0x110F0, 0x11136, 0x111D0, 0x112F0, 0x11450, 0x114D0, 0x11650,
  0x116C0, 0x11730, 0x118E0, 0x11950, 0x11C50, 0x11D50, 0x11DA0, 0x16A60, 0x16AC0, 0x16B50,
  0x1D7CE, 0x1D7D8, 0x1D7E2, 0x1D7EC, 0x1D7F6, 0x1E140, 0x1E2F0, 0x1E950, 0x1FBF0]

/-- The value of a decimal digit of any script. -/
def numeral? (c : Char) : Option Nat :=
  (zeros.find? fun least => least ≤ c.toNat && c.toNat < least + 10).map fun least =>
    c.toNat - least

/-- Whether a character is a decimal digit of some script. -/
def isNumeral (c : Char) : Bool := (numeral? c).isSome

/-- The digits of a number. Single bars may stand between two of them. -/
def numerals? : List Char → Option (List Nat)
  | [] => none
  | [c] => (numeral? c).map fun d => [d]
  | c :: '_' :: rest => do some ((← numeral? c) :: (← numerals? rest))
  | c :: rest => do some ((← numeral? c) :: (← numerals? rest))

/-- The most digits of a number. -/
def maxNumerals : Nat := 4300

/-- The whole number that a text is, with a sign or without one, blanks around it apart. -/
def wholeOfText? (s : String) : Option Int :=
  let (negative, cs) := match trimBy isBlank s.toList with
    | '-' :: rest => (true, rest)
    | '+' :: rest => (false, rest)
    | cs => (false, cs)
  match numerals? cs with
  | none => none
  | some digits =>
    if maxNumerals < digits.length then none
    else
      let n : Int := (digits.foldl (fun n d => 10 * n + d) 0 : Nat)
      some (if negative then -n else n)

end SchemaInference.Text
