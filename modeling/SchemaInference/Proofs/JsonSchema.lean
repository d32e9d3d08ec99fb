import SchemaInference.Json.Basic
import SchemaInference.Key.Rule

/-! The JSON Schema language, as far as schemas are exported in it: which JSON values are valid
against a document. A schema is an object of keywords, all of which have to hold; a keyword that
says something of other values than the one at hand holds, and so does one that is no constraint. -/
namespace SchemaInference.JsonSchema

mutual

/-- Equality of JSON values: numbers by what they amount to, members in any order. -/
def equal : Json → Json → Bool
  | .null, .null => true
  | .bool b, .bool b' => b == b'
  | .int n, .int n' => n == n'
  | .int n, .real x => x.amount = .exact n
  | .real x, .int n => x.amount = .exact n
  | .real x, .real x' => x.amount = x'.amount
  | .str s, .str s' => s == s'
  | .arr items, .arr items' => equalItems items items'
  | .obj members, .obj members' =>
    members.length == members'.length && equalMembers members members'
  | _, _ => false
termination_by structural j => j

def equalItems : List Json → List Json → Bool
  | [], [] => true
  | j :: rest, j' :: rest' => equal j j' && equalItems rest rest'
  | _, _ => false
termination_by structural items => items

/-- Whether every member is among others. -/
def equalMembers : List (String × Json) → List (String × Json) → Bool
  | [], _ => true
  | (name, j) :: rest, members =>
    (match Assoc.find? name members with
      | some j' => equal j j'
      | none => false) && equalMembers rest members
termination_by structural members => members

end

/-- The type of a JSON value. Truth values are no numbers. -/
def typeOf : Json → String
  | .null => "null"
  | .bool _ => "boolean"
  | .int _ | .real _ => "number"
  | .str _ => "string"
  | .arr _ => "array"
  | .obj _ => "object"

/-- The items of an array; other values have none. -/
def itemsOf : Json → List Json
  | .arr items => items
  | _ => []

/-- The members of an object; other values have none. -/
def membersOf : Json → List (String × Json)
  | .obj members => members
  | _ => []

/-- Whether an object has a member; other values need none. -/
def hasMember (name : String) : Json → Bool
  | .obj members => Assoc.contains name members
  | _ => true

/-- The names that keywords give a schema of their own. -/
def declared (keywords : List (String × Json)) : List String :=
  Assoc.keys (membersOf ((Assoc.find? "properties" keywords).getD .null))

/-- Whether a keyword holds of a value. Its argument says something as it stands, as a schema, as
schemas of which one has to be met, or as schemas for members by their names; what it says in the
last three ways is given. Further members of an object are those without a schema of their own. -/
def keywordHolds (own : List String) (keyword : String) (argument j : Json)
    (asSchema : Json → Bool) (asOneOf asFields : Bool) : Bool :=
  match keyword with
  | "type" => argument.str? == some (typeOf j)
  | "enum" => (itemsOf argument).any fun option => equal option j
  | "anyOf" => asOneOf
  | "items" => (itemsOf j).all asSchema
  | "properties" => asFields
  | "required" => (itemsOf argument).all fun name => name.str?.all fun name => hasMember name j
  | "additionalProperties" =>
    (membersOf j).all fun member => own.contains member.1 || asSchema member.2
  | "propertyNames" => (membersOf j).all fun member => asSchema (.str member.1)
  | "pattern" => j.str?.all fun text => argument.str?.any fun rule => KeyRule.admits ⟨rule⟩ text
  | _ => true

mutual

/-- Whether a value is valid against a schema. -/
def valid : Json → Json → Bool
  | .bool accepts, _ => accepts
  | .obj keywords, j => keywordsHold (declared keywords) keywords j
  | _, _ => false
termination_by structural schema => schema

/-- Whether keywords hold of a value. -/
def keywordsHold (own : List String) : List (String × Json) → Json → Bool
  | [], _ => true
  | (keyword, argument) :: rest, j =>
    keywordHolds own keyword argument j (fun item => valid argument item) (validForOne argument j)
        (validByName argument j)
      && keywordsHold own rest j
termination_by structural keywords => keywords

/-- Whether a value is valid against one of the schemas in an array. -/
def validForOne : Json → Json → Bool
  | .arr schemas, j => anyValid schemas j
  | _, _ => false
termination_by structural schemas => schemas

def anyValid : List Json → Json → Bool
  | [], _ => false
  | schema :: rest, j => valid schema j || anyValid rest j
termination_by structural schemas => schemas

/-- Whether the members of an object are valid against the schemas for their names. -/
def validByName : Json → Json → Bool
  | .obj fields, j => fieldsValid fields j
  | _, _ => false
termination_by structural fields => fields

def fieldsValid : List (String × Json) → Json → Bool
  | [], _ => true
  | (name, schema) :: rest, j =>
    ((Assoc.find? name (membersOf j)).all fun item => valid schema item) && fieldsValid rest j
termination_by structural fields => fields

end

end SchemaInference.JsonSchema
