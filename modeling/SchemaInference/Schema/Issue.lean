import SchemaInference.Schema
import SchemaInference.Text.Quoted
import SchemaInference.Value.Basic

/-!
Issues: what is wrong with a document, and where. An issue has a sentence, and the issues of a
document have a report that shows the first five.
-/

namespace SchemaInference

/-- A step on the way to an issue: the key of a map or a position in a list. -/
inductive RouteStep where
  | key (name : String)
  | item (position : Int)
  deriving DecidableEq, Repr

/-- The way from the root of a document to a place in it. -/
abbrev Route := List RouteStep

namespace Route

/-- A route after a text: positions in brackets, and a point before a key unless nothing has been
written yet. -/
def formatFrom (done : String) : Route → String
  | [] => done
  | .item position :: rest => formatFrom (done ++ "[" ++ toString position ++ "]") rest
  | .key name :: rest => formatFrom (if done == "" then name else done ++ "." ++ name) rest

/-- The text of a route. -/
def format (r : Route) : String := formatFrom "" r

end Route

/-- What is wrong: a value of a kind that the schema there does not accept, a key that must be there
and is not, a key that is not declared, or a key that breaks the rule of a record. -/
inductive IssueCause where
  | mismatch (expected : Schema) (received : Kind)
  | missing (expected : Schema)
  | unrecognized (name : String) (received : Kind)
  | misnamed (key : String) (pattern : Option String) (rule : KeyRule)

namespace IssueCause

/-- What was expected. -/
def expected : IssueCause → String
  | .mismatch schema _ | .missing schema => schema.label
  | .unrecognized .. => "never"
  | .misnamed _ _ rule => rule.text

/-- What was found instead. -/
def received : IssueCause → String
  | .mismatch _ kind | .unrecognized _ kind => kind.tag
  | .missing _ => "undefined"
  | .misnamed key .. => key

/-- The sentence for a cause. -/
def message : IssueCause → String
  | .mismatch schema kind => "Expected " ++ schema.label ++ ", received " ++ kind.tag
  | .missing _ => "Required key is missing"
  | .unrecognized name _ => "Unrecognized key " ++ Text.quoted name
  | .misnamed key pattern _ =>
    "Key " ++ Text.quoted key ++ " does not match " ++ pattern.getD "None" ++ " pattern"

end IssueCause

/-- An issue of a document. -/
structure Issue where
  route : Route
  cause : IssueCause

namespace Issue

/-- The text of the place of an issue. -/
def path (i : Issue) : String := i.route.format

/-- An issue on one line. The root has a name here. -/
def line (i : Issue) : String :=
  (if i.path == "" then "<root>" else i.path) ++ ": " ++ i.cause.message

/-- The most issues that a report shows. -/
def reported : Nat := 5

/-- The report of issues. -/
def report (issues : List Issue) : String :=
  let shown := "; ".intercalate ((issues.take reported).map line)
  let more := issues.length - reported
  "Document failed validation: " ++ shown
    ++ if more = 0 then "" else "; ... (" ++ toString more ++ " more)"

end Issue

end SchemaInference
