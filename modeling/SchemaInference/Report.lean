import SchemaInference.Inference
import SchemaInference.Json.Basic

/-!
The report of an analysis as JSON: the summaries of positions, the structure, and the type
predictions. Paths stand in it both as text and by their steps, since a key with a point in it and
two keys can have one text.
-/

namespace SchemaInference

namespace Path

/-- The steps of a path, each with its kind. -/
def toJson (p : Path) : Json :=
  .arr <| p.map fun s =>
    .obj [("kind", .str (if s.isKey then "key" else "index")), ("value", .str s.text)]

end Path

namespace PathSummary

/-- A summary as an object. -/
def toJson (s : PathSummary) : Json :=
  .obj [("path", .str s.path.format), ("type", .str s.tag), ("nullable", .bool s.nullable),
    ("occurrences", .int s.occurrences), ("patterns", Json.strings s.texts),
    ("segments", s.firstPath.toJson)]

end PathSummary

namespace Structure

/-- What every structure says of itself first. -/
def head (flags : Flags) (kind : String) : List (String × Json) :=
  [("nullable", .bool flags.nullable), ("optional", .bool flags.optional), ("kind", .str kind)]

mutual

/-- A structure as an object. -/
def toJson : Structure → Json
  | .primitive flags label => .obj (head flags "primitive" ++ [("value_type", .str label)])
  | .array flags element depth tags =>
    .obj (head flags "array" ++ [("element", match element with
        | some e => toJson e
        | none => .null),
      ("depth", .int depth), ("item_types", Json.strings tags.toList)])
  | .record flags pattern stem label =>
    .obj (head flags "record" ++ [("key_pattern", .str pattern.name),
      ("key_prefix", Json.orNull (stem.map .str)), ("value_type", .str label)])
  | .object flags children =>
    .obj (head flags "object" ++ [("children", .obj (childrenToJson children))])
  | .mixed flags options => .obj (head flags "mixed" ++ [("options", .arr (optionsToJson options))])

def optionsToJson : List Structure → List Json
  | [] => []
  | s :: rest => toJson s :: optionsToJson rest

def childrenToJson : List (String × Structure) → List (String × Json)
  | [] => []
  | (name, s) :: rest => (name, toJson s) :: childrenToJson rest

end

end Structure

namespace TypePrediction

/-- What a prediction says, without what it says of items. -/
def members (p : TypePrediction) : List (String × Json) :=
  [("type_tags", Json.strings p.tags.toList),
    ("enum_values", Json.orNull (p.enumValues.map Json.strings)), ("is_array", .bool p.isArray),
    ("item_types", Json.strings p.itemTags.toList), ("array_depth", .int p.arrayDepth),
    ("nullable", .bool p.nullable), ("optional", .bool p.optional)]

end TypePrediction

namespace Analysis

/-- The report of an analysis. -/
def report (a : Analysis) : Json :=
  .obj [("paths", .arr (a.summaries.map PathSummary.toJson)), ("structure", a.shape.toJson),
    ("predictions", .arr <| a.predictions.map fun (path, p) =>
      .obj ([("path", .str path.format), ("segments", path.toJson), ("label", .str p.label)]
        ++ p.members))]

end Analysis

end SchemaInference
