import SchemaInference.Field

/-!
The thresholds of inference. Their bounds are part of the type, so that no configuration that could
be decoded, or be written down, lies outside them.
-/

namespace SchemaInference

/-- The greatest depth that may be asked for. -/
def maxDepthLimit : Nat := 150

/-- The thresholds of inference. -/
structure Config where
  /-- Positions below this depth accept anything. -/
  maxDepth : Nat := 100
  /-- An enumeration has at least so many values. -/
  enumMinValues : Nat := 2
  /-- The lengths of an enumeration's values differ by at most this. -/
  enumMaxLengthSpread : Nat := 5
  /-- A record has at least so many keys. -/
  recordMinKeys : Nat := 2
  /-- Objects refuse keys that were not sampled. -/
  strictObjects : Bool := true
  maxDepth_pos : 1 ≤ maxDepth := by decide
  maxDepth_le : maxDepth ≤ maxDepthLimit := by decide
  two_le_enumMinValues : 2 ≤ enumMinValues := by decide
  recordMinKeys_pos : 1 ≤ recordMinKeys := by decide
  deriving DecidableEq

namespace Config

/-- The thresholds that hold when nothing else is said. -/
instance : Inhabited Config := ⟨{}⟩

/-- The names that the thresholds have in an object. -/
def fieldNames : List String :=
  ["max_depth", "enum_min_values", "enum_max_length_spread", "record_min_keys", "strict_objects"]

/-- Decodes the members of an object. Every threshold may be left out; nothing else may be there. -/
def ofMembers (members : List (String × Json)) : Checked Config :=
  let depth := Field.withDefault members "max_depth" ⟨100, by decide⟩
    (Field.between 1 maxDepthLimit)
  let values := Field.withDefault members "enum_min_values" ⟨2, by decide⟩ (Field.atLeast 2)
  let spread := Field.withDefault members "enum_max_length_spread" ⟨5, by decide⟩ (Field.atLeast 0)
  let keys := Field.withDefault members "record_min_keys" ⟨2, by decide⟩ (Field.atLeast 1)
  let strict := Field.withDefault members "strict_objects" true Field.boolean
  let fields := depth.both (values.both (spread.both (keys.both strict)))
  (fields.both (Field.onlyKnown fieldNames members)).map
    fun ((depth, values, spread, keys, strict), ()) =>
      { maxDepth := depth, enumMinValues := values, enumMaxLengthSpread := spread,
        recordMinKeys := keys, strictObjects := strict, maxDepth_pos := depth.2.1,
        maxDepth_le := depth.2.2, two_le_enumMinValues := values.2, recordMinKeys_pos := keys.2 }

/-- The thresholds with another depth, within the bounds of one. -/
def withMaxDepth (c : Config) (depth : Int) : Checked Config :=
  (Field.between 1 maxDepthLimit (.int depth)).map fun ⟨depth, bounds⟩ =>
    { c with maxDepth := depth, maxDepth_pos := bounds.1, maxDepth_le := bounds.2 }

/-- The thresholds as an object. -/
def toJson (c : Config) : Json :=
  .obj [("max_depth", .int c.maxDepth), ("enum_min_values", .int c.enumMinValues),
    ("enum_max_length_spread", .int c.enumMaxLengthSpread),
    ("record_min_keys", .int c.recordMinKeys),
    ("strict_objects", .bool c.strictObjects)]

end Config

end SchemaInference
