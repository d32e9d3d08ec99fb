import SchemaInference.Number.Binary64
import SchemaInference.Number.Decimal

/-!
Numbers of a document: whole numbers of any size, binary64 numbers and decimals. Numbers of all
three kinds are compared by their exact value.
-/

namespace SchemaInference

/-- A number of a document. -/
inductive Number where
  | int (n : Int)
  | real (x : Binary64)
  | decimal (d : Decimal)
  deriving DecidableEq, Repr

/-- What a number amounts to, whatever its kind. Something that is no number amounts to itself. -/
inductive Amount where
  | exact (value : Rat)
  | infinite (negative : Bool)
  | unlike (mark : Nat)
  deriving DecidableEq, Repr

namespace Binary64

/-- What a binary number amounts to. -/
def amount (x : Binary64) : Amount :=
  match x with
  | .finite .. => .exact (x.value?.getD 0)
  | .infinite negative => .infinite negative
  | .notANumber mark => .unlike mark

end Binary64

namespace Number

/-- The amount of a number; a signaling decimal has none. -/
def amount? : Number → Option Amount
  | .int n => some (.exact n)
  | .real x => some x.amount
  | .decimal d => match d with
    | .finite .. => some (.exact (d.value?.getD 0))
    | .infinite negative => some (.infinite negative)
    | .quiet mark => some (.unlike mark)
    | .signaling => none

/-- The text of a number as a key. -/
def text : Number → String
  | .int n => toString n
  | .real x => x.text
  | .decimal d => d.text

end Number

end SchemaInference
