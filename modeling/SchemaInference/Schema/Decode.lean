import SchemaInference.Field.Kind
import SchemaInference.Schema

/-!
Decoding schemas from objects that name their kind.
-/

namespace SchemaInference

namespace Schema

/-- The kinds of schemas, by the names that objects give them. -/
def kindNames : List String :=
  ["any", "scalar", "enum", "nullable", "union", "list", "record", "object"]

/-- Decodes a schema. Values of fields have fewer parts than the object that they stand in. -/
def decode (j : Json) : Checked Schema :=
  match j with
  | .obj members =>
    (Field.kind "SchemaKind" kindNames members).andThen fun kind => Checked.within kind <|
      match kind with
      | "any" => .ok .any
      | "scalar" => (Field.required members "tag" Field.string).map .scalar
      | "enum" => (Field.required members "values" (Field.items .notTuple Field.string)).map .enum
      | "nullable" =>
        Checked.within "inner" <|
          match _found : Assoc.find? "inner" members with
          | none => .refuse .missing
          | some j => (decode j).map .nullable
      | "union" =>
        Checked.within "members" <|
          match _found : Assoc.find? "members" members with
          | none => .refuse .missing
          | some (.arr items) =>
            (Checked.all (items.attach.zipIdx.map fun (⟨j, _⟩, i) =>
              Checked.within (toString i) (decode j))).map .union
          | some _ => .refuse .notList
      | "list" =>
        Checked.within "element" <|
          match _found : Assoc.find? "element" members with
          | none => .ok (.list .any)
          | some j => (decode j).map .list
      | "record" =>
        let pattern := Field.withDefault members "key_pattern" none (Field.optional Field.string)
        let rule := Field.withDefault members "key_regex" none (Field.optional Field.string)
        let value := Checked.within "value" <|
          match _found : Assoc.find? "value" members with
          | none => .ok .any
          | some j => decode j
        (pattern.both (rule.both value)).map fun (pattern, rule, value) =>
          .record pattern (rule.map KeyRule.mk) value
      | _ =>
        let shape := Checked.within "shape" <|
          match _found : Assoc.find? "shape" members with
          | none => .ok []
          | some (.obj fields) =>
            Checked.all (fields.attach.map fun ⟨(name, j), _⟩ => Checked.within name <|
              match j with
              | .obj parts =>
                let node := Checked.within "node" <|
                  match _inner : Assoc.find? "node" parts with
                  | none => .refuse .missing
                  | some j => decode j
                (node.both (Field.withDefault parts "optional" false Field.boolean)).map
                  fun (s, optional) => (name, optional, s)
              | _ => .refuse (.notModel "ObjectField"))
          | some _ => .refuse .notMap
        (shape.both (Field.withDefault members "strict" true Field.boolean)).map
          fun (shape, strict) => .object shape strict
  | _ => .refuse .notRecord
termination_by sizeOf j
decreasing_by
  · have := Json.sizeOf_find?_lt _found; simp +arith; omega
  · rename_i member
    have := Json.sizeOf_find?_lt _found
    have := List.sizeOf_lt_of_mem member
    simp +arith at *; omega
  · have := Json.sizeOf_find?_lt _found; simp +arith; omega
  · have := Json.sizeOf_find?_lt _found; simp +arith; omega
  · rename_i member
    have := Json.sizeOf_find?_lt _found
    have := Json.sizeOf_find?_lt _inner
    have := List.sizeOf_lt_of_mem member
    simp +arith at *; omega

end Schema

end SchemaInference
