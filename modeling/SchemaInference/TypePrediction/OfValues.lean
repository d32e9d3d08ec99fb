import SchemaInference.EnumRule
import SchemaInference.Samples
import SchemaInference.TypePrediction
import SchemaInference.Value.Nesting

/-!
The type prediction of the values at a position. The items of lists are predicted once for every
list and merged; `levels` bounds how far into lists that goes.
-/

namespace SchemaInference

namespace TypePrediction

/-- The prediction that says nothing about a position. -/
def anything : TypePrediction := { tags := .ofList ["any"] }

/-- The prediction of an item that two lists are to share. -/
def mergeElement (element : Option TypePrediction) (p : TypePrediction) : Option TypePrediction :=
  some (match element with
    | none => p
    | some e => e.merge p)

/-- The prediction for a position where these values were seen, and maps beside them if `isMap`. -/
def ofValues (c : Config) (optional isMap : Bool) : (levels : Nat) → List Value → TypePrediction
  | 0, _ => anything
  | levels + 1, values =>
    let tags := (values.filter fun v => !v.isNull).map Value.tag
    let nestings := values.filterMap fun v => v.items?.map Nesting.ofItems
    let filled := nestings.filter fun s => !s.leaves.isEmpty
    { tags := .ofList (if isMap then "object" :: tags else tags)
      enumValues := enumOf? c (values.filterMap Value.text?)
      isArray := values.any Value.isList
      itemTags := .ofList (filled.flatMap Nesting.tags)
      arrayDepth := (nestings.foldl (fun deepest s => max deepest s.depth) 0 : Nat)
      element := filled.foldl (fun element s =>
        mergeElement element (ofValues c false false levels s.leaves)) none
      nullable := values.any Value.isNull
      optional := optional }

end TypePrediction

/-- The type predictions of all positions of some samples. -/
def Samples.typePredictions (s : Samples) (c : Config) : List (Path × TypePrediction) :=
  s.paths.map fun path =>
    (path, .ofValues c (s.lacksLast path) (s.hasMap path) (c.maxDepth + 1) (s.valuesAt path))

end SchemaInference
