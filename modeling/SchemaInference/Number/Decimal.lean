import SchemaInference.Number.Digits

/-!
Decimal numbers that keep their written precision: `1.50` and `1.5` are equal in value and differ in
text.
-/

namespace SchemaInference

/-- A decimal number `±coefficient · 10 ^ exponent`. One that is no number is either quiet, and then
equals itself alone by its mark, or signals, and then refuses every comparison. -/
inductive Decimal where
  | finite (negative : Bool) (coefficient : Nat) (exponent : Int)
  | infinite (negative : Bool)
  | quiet (mark : Nat)
  | signaling
  deriving DecidableEq, Repr

namespace Decimal

open Number

/-- The exact value of a finite number. -/
def value? : Decimal → Option Rat
  | .finite negative coefficient exponent =>
    let magnitude : Rat :=
      mkRat (coefficient * Nat.pow 10 exponent.toNat : Nat) (Nat.pow 10 (-exponent).toNat)
    some (if negative then -magnitude else magnitude)
  | _ => none

/-- A number is written with the point in its digits as long as it needs no zeros to its right and
fewer than seven in front; otherwise with one digit before the point and a signed power of ten. -/
def text : Decimal → String
  | .finite negative coefficient exponent =>
    let row := toDigits coefficient
    let left : Int := row.length + exponent
    let positional := exponent ≤ 0 && -6 < left
    let point : Int := if positional then left else 1
    let digits :=
      if point ≤ 0 then '0' :: '.' :: List.replicate (-point).toNat '0' ++ row
      else if row.length ≤ point.toNat then row
      else row.take point.toNat ++ '.' :: row.drop point.toNat
    let power := left - point
    let tail :=
      if power = 0 then []
      else 'E' :: (if power < 0 then '-' else '+') :: toDigits power.natAbs
    String.ofList ((if negative then ['-'] else []) ++ digits ++ tail)
  | .infinite negative => if negative then "-Infinity" else "Infinity"
  | .quiet _ => "NaN"
  | .signaling => "sNaN"

/-- A signed row of digits at the end of a text. -/
def exponent? (cs : List Char) : Option Int :=
  let (negative, digits) := match cs with
    | '-' :: rest => (true, rest)
    | '+' :: rest => (false, rest)
    | rest => (false, rest)
  if digits.isEmpty || !digits.all isDigit then none
  else some (if negative then -(ofDigits digits : Int) else ofDigits digits)

/-- Reads a decimal: an optional sign, then digits with an optional point and power of ten, or the
name of an infinity or of what is no number. A quiet one gets the mark that is passed in. -/
def ofText? (mark : Nat) (s : String) : Option Decimal :=
  let cs := s.toList.filter (· != '_')
  let (negative, rest) := match cs with
    | '-' :: rest => (true, rest)
    | '+' :: rest => (false, rest)
    | rest => (false, rest)
  let name := String.ofList (rest.map Char.toLower)
  if name == "inf" || name == "infinity" then some (.infinite negative)
  else if name.startsWith "nan" then some (.quiet mark)
  else if name.startsWith "snan" then some .signaling
  else
    let whole := rest.takeWhile isDigit
    let rest := rest.dropWhile isDigit
    let (fraction, rest) := match rest with
      | '.' :: rest => (rest.takeWhile isDigit, rest.dropWhile isDigit)
      | rest => ([], rest)
    if whole.isEmpty && fraction.isEmpty then none else
    let power? : Option Int := match rest with
      | [] => some 0
      | c :: rest => if c == 'e' || c == 'E' then exponent? rest else none
    power?.map fun power =>
      .finite negative (ofDigits (whole ++ fraction)) (power - fraction.length)

end Decimal

end SchemaInference
