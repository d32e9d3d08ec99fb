import SchemaInference.Field
import SchemaInference.Label

/-!
Type predictions: the tags seen at one position, the values of an enumeration in place of its
strings, and, where lists were seen, the same of their items. Predictions can be merged, and decoded
from an object.
-/

namespace SchemaInference

/-- What is predicted for one position. -/
structure TypePrediction where
  tags : TagSet := .empty
  enumValues : Option (List String) := none
  isArray : Bool := false
  itemTags : TagSet := .empty
  arrayDepth : Int := 0
  element : Option TypePrediction := none
  nullable : Bool := false
  optional : Bool := false

namespace TypePrediction

/-- The label of all that was seen. -/
def label (p : TypePrediction) : String :=
  Label.render p.tags.toList p.enumValues p.nullable p.optional

/-- The label of what was seen apart from lists; whether it may be absent does not show. -/
def scalarLabel (p : TypePrediction) : String :=
  Label.render (p.tags.erase "array").toList p.enumValues p.nullable false

/-- The enumeration of two predictions together. One without strings leaves the other's as it is;
strings that are no enumeration make the whole none. -/
def mergeEnums (a b : TypePrediction) : Option (List String) :=
  if "string" ∉ a.tags then b.enumValues
  else if "string" ∉ b.tags then a.enumValues
  else
    match a.enumValues, b.enumValues with
    | some (v :: vs), some (w :: ws) => some (ascending ((v :: vs) ++ (w :: ws)))
    | _, _ => none

/-- All that either of two predictions says. -/
def merge : TypePrediction → TypePrediction → TypePrediction
  | a@⟨tags, _, isArray, itemTags, arrayDepth, element, nullable, optional⟩, b =>
    { tags := tags.union b.tags
      enumValues := mergeEnums a b
      isArray := isArray || b.isArray
      itemTags := itemTags.union b.itemTags
      arrayDepth := max arrayDepth b.arrayDepth
      element := match element, b.element with
        | some e, some e' => some (merge e e')
        | some e, none => some e
        | none, e' => e'
      nullable := nullable || b.nullable
      optional := optional || b.optional }

/-- Decodes a prediction from the members of an object. Everything may be left out. -/
def decode (j : Json) : Checked TypePrediction :=
  match j with
  | .obj members =>
    let tags := Field.withDefault members "type_tags" [] (Field.items .notSet Field.string)
    let values := Field.withDefault members "enum_values" none
      (Field.optional (Field.items .notTuple Field.string))
    let isArray := Field.withDefault members "is_array" false Field.boolean
    let itemTags := Field.withDefault members "item_types" [] (Field.items .notSet Field.string)
    let depth := Field.withDefault members "array_depth" 0 Field.integer
    let element := Checked.within "element" <|
      match _found : Assoc.find? "element" members with
      | none | some .null => .ok none
      | some j => (decode j).map some
    let nullable := Field.withDefault members "nullable" false Field.boolean
    let optional := Field.withDefault members "optional" false Field.boolean
    (tags.both (values.both (isArray.both (itemTags.both (depth.both (element.both
      (nullable.both optional))))))).map
        fun (tags, values, isArray, itemTags, depth, element, nullable, optional) =>
          ⟨.ofList tags, values, isArray, .ofList itemTags, depth, element, nullable, optional⟩
  | _ => .refuse (.notModel "TypePrediction")
termination_by sizeOf j
decreasing_by
  have := Json.sizeOf_find?_lt _found; simp +arith; omega

end TypePrediction

end SchemaInference
