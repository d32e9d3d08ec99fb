import SchemaInference.Value.Basic
import SchemaInference.Json.Basic

/-!
JSON values as documents.
-/

namespace SchemaInference

mutual

/-- The document that a JSON value is. -/
def Value.ofJson : Json → Value
  | .null => .null
  | .bool b => .bool b
  | .int n => .number (.int n)
  | .real x => .number (.real x)
  | .str s => .text s
  | .arr items => .list .list (Value.ofJsonItems items)
  | .obj members => .map .plain (Value.ofJsonMembers members)

def Value.ofJsonItems : List Json → List Value
  | [] => []
  | j :: rest => Value.ofJson j :: Value.ofJsonItems rest

def Value.ofJsonMembers : List (String × Json) → List (Value × Value)
  | [] => []
  | (name, j) :: rest => (.text name, Value.ofJson j) :: Value.ofJsonMembers rest

end

end SchemaInference
