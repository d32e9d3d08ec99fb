import SchemaInference.Assoc
import SchemaInference.Key.Rule
import SchemaInference.Label

/-!
Schemas: what a document is checked against. A schema has a label, two schemas can be the same, and
there are constructors for alternatives and for null that say nothing twice.
-/

namespace SchemaInference

/-- A schema. A field of an object says whether it may be missing; a strict object has no others. -/
inductive Schema where
  | any
  | scalar (tag : String)
  | enum (values : List String)
  | nullable (inner : Schema)
  | union (members : List Schema)
  | list (element : Schema)
  | record (pattern : Option String) (rule : Option KeyRule) (value : Schema)
  | object (shape : List (String × Bool × Schema)) (strict : Bool)

namespace Schema

/-- The scalar that accepts null alone. -/
def null : Schema := .scalar "null"

/-- The name of a kind of schema. -/
def kindName : Schema → String
  | .any => "any"
  | .scalar _ => "scalar"
  | .enum _ => "enum"
  | .nullable _ => "nullable"
  | .union _ => "union"
  | .list _ => "list"
  | .record .. => "record"
  | .object .. => "object"

/-- The label of a record of values with this label. A pattern without a name counts as none. -/
def recordLabel (pattern : Option String) (value : String) : String :=
  let name := match pattern with
    | none | some "" => "string"
    | some name => name
  "Record<" ++ name ++ ", " ++ value ++ ">"

/-- The label of an object whose fields have these labels. -/
def objectLabel (fields : List String) : String :=
  if fields.isEmpty then "\x7b\x7d" else "\x7b " ++ "; ".intercalate fields ++ " \x7d"

mutual

/-- The label of a schema. -/
def label : Schema → String
  | .any => "any"
  | .scalar tag => tag
  | .enum values => Label.ofEnum values
  | .nullable inner => inner.label ++ Label.bar ++ "null"
  | .union members => Label.bar.intercalate (memberLabels members)
  | .list element => "Array<" ++ element.label ++ ">"
  | .record pattern _ value => recordLabel pattern value.label
  | .object shape _ => objectLabel (fieldLabels shape)

def memberLabels : List Schema → List String
  | [] => []
  | s :: rest => s.label :: memberLabels rest

def fieldLabels : List (String × Bool × Schema) → List String
  | [] => []
  | (name, optional, s) :: rest =>
    (name ++ (if optional then "?: " else ": ") ++ s.label) :: fieldLabels rest

end

mutual

/-- How many calls are nested when the label of a schema is written. Members of a union and fields
of an object are written one call further in. -/
def labelCalls : Schema → Nat
  | .any | .scalar _ => 1
  | .enum _ => 2
  | .nullable inner | .list inner | .record _ _ inner => 1 + inner.labelCalls
  | .union members => 2 + memberLabelCalls members
  | .object shape _ => 2 + fieldLabelCalls shape

def memberLabelCalls : List Schema → Nat
  | [] => 0
  | s :: rest => max s.labelCalls (memberLabelCalls rest)

def fieldLabelCalls : List (String × Bool × Schema) → Nat
  | [] => 0
  | (_, _, s) :: rest => max s.labelCalls (fieldLabelCalls rest)

end

mutual

/-- Whether two schemas are the same one. The order of an object's fields does not count. -/
def same : Schema → Schema → Bool
  | .any, .any => true
  | .scalar tag, .scalar tag' => tag == tag'
  | .enum values, .enum values' => values == values'
  | .nullable inner, .nullable inner' => same inner inner'
  | .union members, .union members' => sameMembers members members'
  | .list element, .list element' => same element element'
  | .record pattern rule value, .record pattern' rule' value' =>
    pattern == pattern' && rule == rule' && same value value'
  | .object shape strict, .object shape' strict' =>
    strict == strict' && shape.length == shape'.length && sameFields shape shape'
  | _, _ => false

def sameMembers : List Schema → List Schema → Bool
  | [], [] => true
  | s :: rest, s' :: rest' => same s s' && sameMembers rest rest'
  | _, _ => false

/-- Whether every field of one shape has the same field in another. -/
def sameFields : List (String × Bool × Schema) → List (String × Bool × Schema) → Bool
  | [], _ => true
  | (name, optional, s) :: rest, shape =>
    (match Assoc.find? name shape with
      | some (optional', s') => optional == optional' && same s s'
      | none => false) && sameFields rest shape

end

/-- A schema as alternatives: those of a union, or itself alone. -/
def alternatives : Schema → List Schema
  | .union members => members
  | s => [s]

/-- Whether anything is accepted. -/
def isAny : Schema → Bool
  | .any => true
  | _ => false

/-- Puts a schema after others unless it is among them. -/
def addDistinct (members : List Schema) (s : Schema) : List Schema :=
  if members.any (same s) then members else members ++ [s]

/-- A schema of alternatives, none of them twice; one alternative stands for itself. -/
def ofAlternatives : List Schema → Schema
  | [] => .any
  | [s] => s
  | members => .union members

/-- Accepts what one of these schemas accepts. Unions among them are opened, and where anything is
accepted nothing else is said. -/
def anyOf (schemas : List Schema) : Schema :=
  let members := schemas.flatMap alternatives
  if members.any isAny then .any else ofAlternatives (members.foldl addDistinct [])

/-- Whether a schema says on its face that it accepts null. -/
def admitsNull : Schema → Bool
  | .any | .nullable _ => true
  | .scalar tag => tag == "null"
  | .union members => members.any (same null)
  | _ => false

/-- Accepts null beside what a schema accepts. -/
def orNull (s : Schema) : Schema := if s.admitsNull then s else .nullable s

end Schema

end SchemaInference
