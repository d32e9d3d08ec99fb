import SchemaInference.Value.Basic

/-!
Reading the values that have a text of their own: quotients, complex numbers and spans of time.
-/

namespace SchemaInference

namespace Number

/-- The exact value of a decimal. -/
def ratioOfText? (s : String) : Option Rat := (Decimal.ofText? 0 s).bind Decimal.value?

/-- A quotient of whole numbers, or a decimal. -/
def fractionOfText? (s : String) : Option Rat :=
  match s.splitOn "/" with
  | [above, below] => do
    let n ← ratioOfText? above
    let d ← ratioOfText? below
    if d = 0 then none else some (n / d)
  | _ => ratioOfText? s

/-- The binary64 number nearest to a decimal. -/
def realOfText? (s : String) : Option Binary64 :=
  match Decimal.ofText? 0 s with
  | some (.finite negative coefficient exponent) =>
    some (.ofDecimal negative coefficient exponent)
  | some (.infinite negative) => some (.infinite negative)
  | some (.quiet mark) => some (.notANumber mark)
  | _ => none

/-- Where the imaginary part begins: at the last sign that is neither the first character nor that
of a power of ten. -/
def imaginaryStart (cs : List Char) : Nat :=
  let signed (i : Nat) : Bool :=
    (cs[i]? == some '+' || cs[i]? == some '-')
      && !(cs[i - 1]? == some 'e' || cs[i - 1]? == some 'E')
  ((List.range cs.length).filter fun i => 0 < i && signed i).getLast?.getD 0

/-- A complex number, in brackets or without them. -/
def complexOfText? (s : String) : Option (Binary64 × Binary64) :=
  let cs := s.toList.filter fun c => c != '(' && c != ')' && c != ' '
  if cs.getLast? = some 'j' || cs.getLast? = some 'J' then
    let start := imaginaryStart cs
    let part := String.ofList (cs.drop start).dropLast
    let imaginary := realOfText? <|
      if part == "" || part == "+" then "1" else if part == "-" then "-1" else part
    let re := if start = 0 then some (.finite false 0 0) else
      realOfText? (String.ofList (cs.take start))
    match re, imaginary with
    | some re, some im => some (re, im)
    | _, _ => none
  else (realOfText? (String.ofList cs)).map fun re => (re, .finite false 0 0)

/-- The microseconds in a number of seconds, a half going to the even one. -/
def microsOf (seconds : Rat) : Int :=
  let micros := seconds * 1000000
  let magnitude : Int := roundHalfEven micros.num.natAbs micros.den
  if micros.num < 0 then -magnitude else magnitude

end Number

end SchemaInference
