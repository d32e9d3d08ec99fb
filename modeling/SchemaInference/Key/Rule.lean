import SchemaInference.Regex.Match
import SchemaInference.Regex.Reader

/-!
Key rules: what the keys of a record must match as a whole. A rule is the text of an expression,
which is what a schema shows and exports. A text that cannot be read admits no key, and a check that
comes to such a rule has a fault to report.
-/

namespace SchemaInference

/-- A rule for keys, given by the text of an expression. -/
structure KeyRule where
  text : String
  deriving DecidableEq, Repr

namespace KeyRule

/-- The expression of a rule, or the fault of its text. -/
def expression (r : KeyRule) : Except Regex.Fault Regex := Regex.ofText r.text

/-- The fault of a rule, if its text cannot be read. -/
def fault? (r : KeyRule) : Option Regex.Fault :=
  match r.expression with
  | .ok _ => none
  | .error fault => some fault

/-- A rule whose text can be read. -/
def WellFormed (r : KeyRule) : Prop := r.fault? = none

/-- Whether a key matches a rule as a whole. -/
def admits (r : KeyRule) (key : String) : Bool :=
  match r.expression with
  | .ok expression => expression.accepts key.toList
  | .error _ => false

/-- Whether a match of a rule is found in a key. -/
def found (r : KeyRule) (key : String) : Bool :=
  match r.expression with
  | .ok expression => expression.found key.toList
  | .error _ => false

end KeyRule

end SchemaInference
