import SchemaInference.Field
import SchemaInference.Value.Document
import SchemaInference.Value.Written

/-!
Objects that name their kind. The kind says which fields the object has, so it is decoded first, and
without it nothing else is.
-/

namespace SchemaInference

/-- The kind that an object names, which must be one of a family. -/
def Field.kind (family : String) (kinds : List String) (members : List (String × Json)) :
    Checked String :=
  match Assoc.find? "kind" members with
  | none => .refuse .noKind
  | some (.str kind) =>
    if kinds.contains kind then .ok kind else .refuse (.unknownKind kind family kinds)
  | some j => .refuse (.unknownKind (Value.ofJson j).alone family kinds)

end SchemaInference
