/-!
Decimal digits of numbers, and reading them.
-/

namespace SchemaInference.Number

/-- The value of a decimal digit. -/
def digit? (c : Char) : Option Nat :=
  if '0' ≤ c && c ≤ '9' then some (c.toNat - '0'.toNat) else none

/-- A decimal digit of ASCII. -/
def isDigit (c : Char) : Bool := '0' ≤ c && c ≤ '9'

/-- The number that a row of decimal digits stands for; other characters count as zero. -/
def ofDigits (cs : List Char) : Nat :=
  cs.foldl (fun n c => 10 * n + (digit? c).getD 0) 0

/-- The decimal digits of a number. -/
def toDigits (n : Nat) : List Char := Nat.toDigits 10 n

/-- The most digits of a whole number that are read or written. -/
def maxDigits : Nat := 4300

/-- Whether a whole number has too many digits to be written. -/
def isOverlong (n : Int) : Bool := maxDigits < (toDigits n.natAbs).length

/-- A number to the nearest whole quotient, a half going to the even neighbour. -/
def roundHalfEven (numerator denominator : Nat) : Nat :=
  let quotient := numerator / denominator
  let rest := numerator % denominator
  if 2 * rest < denominator then quotient
  else if denominator < 2 * rest then quotient + 1
  else if quotient % 2 == 0 then quotient else quotient + 1

/-- A row of digits, filled up with zeros on the left to a width. -/
def padLeft (width : Nat) (cs : List Char) : List Char :=
  List.replicate (width - cs.length) '0' ++ cs

end SchemaInference.Number
