import SchemaInference.Number.Digits

/-!
Numbers of the binary64 format, held exactly: a finite one is a whole number times a power of two.
Reading a decimal takes the nearest such number, a half going to the even one; writing takes the
fewest decimal digits that read back.
-/

namespace SchemaInference

/-- A binary64 number. A finite one stands for `±mantissa · 2 ^ exponent`. A number that is none
carries a mark, by which it equals itself alone. -/
inductive Binary64 where
  | finite (negative : Bool) (mantissa : Nat) (exponent : Int)
  | infinite (negative : Bool)
  | notANumber (mark : Nat)
  deriving DecidableEq, Repr

namespace Binary64

open Number

/-- `base ^ e` for `e ≥ 0`, else one. -/
def up (base : Nat) (e : Int) : Nat := base.pow e.toNat

/-- The least mantissa of 53 bits. -/
def leastFull : Nat := Nat.pow 2 52

/-- The binary64 number nearest to `±numerator / denominator`. The exponent is chosen so that the
mantissa has 53 bits, unless the number is too small for that. -/
def ofRatio (negative : Bool) (numerator denominator : Nat) : Binary64 :=
  if numerator = 0 then .finite negative 0 0 else
  let guess := (numerator.log2 : Int) - denominator.log2 - 52
  let tooHigh := numerator * up 2 (-guess) < leastFull * (denominator * up 2 guess)
  let exponent := max (if tooHigh then guess - 1 else guess) (-1074)
  let mantissa := roundHalfEven (numerator * up 2 (-exponent)) (denominator * up 2 exponent)
  let (mantissa, exponent) :=
    if mantissa = 2 * leastFull then (leastFull, exponent + 1) else (mantissa, exponent)
  if 971 < exponent then .infinite negative else .finite negative mantissa exponent

/-- The binary64 number nearest to `±digits · 10 ^ power`. Beyond 400 decimal places on either side
the outcome is certain, and no large power is formed. -/
def ofDecimal (negative : Bool) (digits : Nat) (power : Int) : Binary64 :=
  let places := (digits.log2 : Int) * 30103 / 100000 + power
  if digits = 0 || places < -400 then .finite negative 0 0
  else if 400 < places then .infinite negative
  else ofRatio negative (digits * up 10 power) (up 10 (-power))

/-- The exact value of a finite number. -/
def value? : Binary64 → Option Rat
  | .finite negative mantissa exponent =>
    let magnitude : Rat := mkRat (mantissa * up 2 exponent : Nat) (up 2 (-exponent))
    some (if negative then -magnitude else magnitude)
  | _ => none

/-- The whole number that a finite number is, if it is one. -/
def whole? (x : Binary64) : Option Int :=
  match x.value? with
  | some q => if q.den = 1 then some q.num else none
  | none => none

/-- `point` is such that `0.1 ≤ value / 10 ^ point < 1`, found upwards from a low guess. -/
def decimalPoint (numerator denominator : Nat) : Int :=
  let guess := ((numerator.log2 : Int) - denominator.log2) * 30103 / 100000 - 2
  let below (p : Int) := numerator * up 10 (-p) < denominator * up 10 p
  match (List.range 8).find? fun (i : Nat) => below (guess + i) with
  | some i => guess + i
  | none => guess

/-- The fewest digits, at least `count`, that a decimal needs to read as `mantissa · 2 ^ exponent`,
together with the place of the point before them. The reals that round to the number reach half a
step to either side, a quarter step below a power of two, ends included for an even mantissa; of the
two neighbours on a decimal grid the one inside counts, of both the nearer. -/
def shortestFrom (mantissa : Nat) (exponent point : Int) (tries count : Nat) : Nat × Int :=
  match tries with
  | 0 => (0, point)
  | tries + 1 =>
    let power := point - count
    let halves := exponent - 2
    let ofGrid (c : Nat) : Nat := c * up 10 power * up 2 (-halves)
    let ofHalves (x : Nat) : Nat := x * up 2 halves * up 10 (-power)
    let atPower := mantissa = leastFull && -1074 < exponent
    let low := ofHalves (4 * mantissa - (if atPower then 1 else 2))
    let high := ofHalves (4 * mantissa + 2)
    let exact := ofHalves (4 * mantissa)
    let inside (c : Nat) : Bool :=
      if mantissa % 2 = 0 then low ≤ ofGrid c && ofGrid c ≤ high
      else low < ofGrid c && ofGrid c < high
    let lower := exact / ofGrid 1
    let upper := lower + 1
    match inside lower && 0 < lower, inside upper with
    | true, true =>
      let below := exact - ofGrid lower
      let above := ofGrid upper - exact
      if below < above || (below = above && lower % 2 = 0) then (lower, power) else (upper, power)
    | true, false => (lower, power)
    | false, true => (upper, power)
    | false, false => shortestFrom mantissa exponent point tries (count + 1)

/-- The shortest decimal `digits · 10 ^ power` that is read as `mantissa · 2 ^ exponent`. -/
def shortest (mantissa : Nat) (exponent : Int) : Nat × Int :=
  let point := decimalPoint (mantissa * up 2 exponent) (up 2 (-exponent))
  shortestFrom mantissa exponent point 17 1

/-- How a finite number is laid out: the places of the point that are written positionally, and the
fewest digits of an exponent. -/
structure Layout where
  lowest : Int
  highest : Int
  exponentWidth : Nat

/-- Numbers from a ten-thousandth up to ten quadrillion are written positionally, others with a
signed exponent of at least two digits. -/
def layout : Layout := ⟨-3, 16, 2⟩

/-- A row without the zeros at its end. -/
def dropTrailingZeros (cs : List Char) : List Char := (cs.reverse.dropWhile (· == '0')).reverse

/-- The digits of a positive number with the point where it belongs; a whole number has no point. -/
def magnitudeText (mantissa : Nat) (exponent : Int) : List Char :=
  if mantissa = 0 then ['0'] else
  let (digits, power) := shortest mantissa exponent
  let all := toDigits digits
  let point : Int := all.length + power
  let row := dropTrailingZeros all
  if layout.lowest ≤ point && point ≤ layout.highest then
    if point ≤ 0 then '0' :: '.' :: List.replicate (-point).toNat '0' ++ row
    else if row.length ≤ point.toNat then row ++ List.replicate (point.toNat - row.length) '0'
    else row.take point.toNat ++ '.' :: row.drop point.toNat
  else
    let e := point - 1
    let fraction := if row.length ≤ 1 then [] else '.' :: row.drop 1
    row.take 1 ++ fraction ++ 'e' :: (if e < 0 then '-' else '+')
      :: padLeft layout.exponentWidth (toDigits e.natAbs)

/-- The text of a number without a mark that it is not whole: `1`, `0.5`, `1e+22`. -/
def shortText : Binary64 → String
  | .finite negative mantissa exponent =>
    String.ofList ((if negative then ['-'] else []) ++ magnitudeText mantissa exponent)
  | .infinite negative => if negative then "-inf" else "inf"
  | .notANumber _ => "nan"

/-- The text of a number; a whole one that is written positionally ends in `.0`. -/
def text (x : Binary64) : String :=
  let short := x.shortText
  match x with
  | .finite .. =>
    if short.toList.any (fun c => c == '.' || c == 'e') then short else short ++ ".0"
  | _ => short

end Binary64

end SchemaInference
