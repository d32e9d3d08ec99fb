import SchemaInference.Json.Basic
import SchemaInference.Schema

/-!
Schemas as documents of the JSON Schema language. What that language cannot say is noted under a
keyword of its own, which constrains nothing.
-/

namespace SchemaInference

namespace Schema

/-- The version of the language. -/
def draft : String := "https://json-schema.org/draft/2020-12/schema"

/-- The tags that are types of the language by the same name. -/
def sharedTypes : List String := ["null", "string", "number", "boolean"]

/-- The keywords for one tag. -/
def scalarKeywords (tag : String) : List (String × Json) :=
  if sharedTypes.contains tag then [("type", .str tag)]
  else if tag == "date" then
    [("type", .str "string"), ("format", .str "date-time"), ("x-runtime-type", .str tag)]
  else [("x-runtime-type", .str tag)]

/-- The keyword for the rule of a record. -/
def ruleKeywords : Option KeyRule → List (String × Json)
  | none => []
  | some rule => [("propertyNames", .obj [("pattern", .str rule.text)])]

/-- The keywords for the fields that must be there. -/
def requiredKeywords (shape : List (String × Bool × Schema)) : List (String × Json) :=
  let names := (shape.filter fun (_, optional, _) => !optional).map Prod.fst
  if names.isEmpty then [] else [("required", Json.strings names)]

mutual

/-- The keywords of a schema. -/
def keywords : Schema → List (String × Json)
  | .any => []
  | .scalar tag => scalarKeywords tag
  | .enum values => [("enum", Json.strings values)]
  | .nullable inner => [("anyOf", .arr [.obj (keywords inner), .obj [("type", .str "null")]])]
  | .union members => [("anyOf", .arr (memberKeywords members))]
  | .list element => [("type", .str "array"), ("items", .obj (keywords element))]
  | .record _ rule value =>
    [("type", .str "object"), ("additionalProperties", .obj (keywords value))] ++ ruleKeywords rule
  | .object shape strict =>
    [("type", .str "object"), ("properties", .obj (fieldKeywords shape))] ++ requiredKeywords shape
      ++ if strict then [("additionalProperties", .bool false)] else []

def memberKeywords : List Schema → List Json
  | [] => []
  | s :: rest => .obj (keywords s) :: memberKeywords rest

def fieldKeywords : List (String × Bool × Schema) → List (String × Json)
  | [] => []
  | (name, _, s) :: rest => (name, .obj (keywords s)) :: fieldKeywords rest

end

theorem memberKeywords_eq (members : List Schema) :
    memberKeywords members = members.map fun s => .obj s.keywords := by
  induction members with
  | nil => rfl
  | cons s rest ih => rw [memberKeywords, ih, List.map_cons]

theorem fieldKeywords_eq (shape : List (String × Bool × Schema)) :
    fieldKeywords shape = shape.map fun field => (field.1, .obj field.2.2.keywords) := by
  induction shape with
  | nil => rfl
  | cons field rest ih => rw [fieldKeywords, ih, List.map_cons]

/-- The document of a schema. An empty title counts as none. -/
def document (s : Schema) (title : String) : Json :=
  .obj ([("$schema", .str draft)] ++ (if title == "" then [] else [("title", .str title)])
    ++ s.keywords)

end Schema

end SchemaInference
