import SchemaInference.Field.Kind
import SchemaInference.Key.Pattern
import SchemaInference.Tag

/-!
Structures: the shape that is inferred for a position of documents and everything below it. A
structure can be decoded from an object that names its kind.
-/

namespace SchemaInference

/-- Whether null was seen at a position, and whether some map lacks its key. -/
structure Flags where
  nullable : Bool := false
  optional : Bool := false
  deriving DecidableEq, Repr

/-- The shape of a position: scalars with a label, lists with one shape for all items, open maps
with keys of a pattern, maps with named fields, or several of these at once. -/
inductive Structure where
  | primitive (flags : Flags) (label : String)
  | array (flags : Flags) (element : Option Structure) (depth : Int) (itemTags : TagSet)
  | record (flags : Flags) (pattern : KeyPattern) (stem : Option String) (label : String)
  | object (flags : Flags) (children : List (String × Structure))
  | mixed (flags : Flags) (options : List Structure)

namespace Structure

/-- The marks of a position. -/
def flags : Structure → Flags
  | .primitive flags _ | .array flags .. | .record flags .. | .object flags _ | .mixed flags _ =>
    flags

/-- The same shape with other marks. -/
def withFlags (flags : Flags) : Structure → Structure
  | .primitive _ label => .primitive flags label
  | .array _ element depth tags => .array flags element depth tags
  | .record _ pattern stem label => .record flags pattern stem label
  | .object _ children => .object flags children
  | .mixed _ options => .mixed flags options

/-- The same shape with another mark of null. -/
def setNullable (nullable : Bool) (s : Structure) : Structure :=
  s.withFlags { s.flags with nullable }

/-- The same shape at a position that may be absent. -/
def makeOptional (s : Structure) : Structure := s.withFlags { s.flags with optional := true }

@[simp] theorem flags_withFlags (flags : Flags) (s : Structure) :
    (s.withFlags flags).flags = flags := by
  cases s <;> rfl

/-- The kinds of structures, by the names that objects give them. -/
def kindNames : List String := ["primitive", "array", "record", "object", "mixed"]

/-- The naming convention that a text names. -/
def decodePattern (j : Json) : Checked KeyPattern :=
  .ofOption (.notOneOf "enum" (KeyPattern.all.map KeyPattern.name)) (j.str?.bind KeyPattern.ofName?)

/-- Decodes the marks of a position, neither of which has to be there. -/
def decodeFlags (members : List (String × Json)) : Checked Flags :=
  ((Field.withDefault members "nullable" false Field.boolean).both
    (Field.withDefault members "optional" false Field.boolean)).map fun (nullable, optional) =>
      ⟨nullable, optional⟩

/-- Decodes a structure. Values of fields have fewer parts than the object that they stand in. -/
def decode (j : Json) : Checked Structure :=
  match j with
  | .obj members =>
    (Field.kind "StructureKind" kindNames members).andThen fun kind => Checked.within kind <|
      let flags := decodeFlags members
      match kind with
      | "primitive" =>
        (flags.both (Field.withDefault members "value_type" "any" Field.string)).map
          fun (flags, label) => .primitive flags label
      | "array" =>
        let element := Checked.within "element" <|
          match _found : Assoc.find? "element" members with
          | none | some .null => .ok none
          | some j => (decode j).map some
        let depth := Field.withDefault members "depth" 1 Field.integer
        let tags := Field.withDefault members "item_types" [] (Field.items .notSet Field.string)
        (flags.both (element.both (depth.both tags))).map
          fun (flags, element, depth, tags) => .array flags element depth (.ofList tags)
      | "record" =>
        let pattern := Field.required members "key_pattern" decodePattern
        let stem := Field.withDefault members "key_prefix" none (Field.optional Field.string)
        let label := Field.required members "value_type" Field.string
        (flags.both (pattern.both (stem.both label))).map
          fun (flags, pattern, stem, label) => .record flags pattern stem label
      | "object" =>
        let children := Checked.within "children" <|
          match _found : Assoc.find? "children" members with
          | none => .ok []
          | some (.obj entries) =>
            Checked.all (entries.attach.map fun ⟨(name, j), _⟩ =>
              Checked.within name ((decode j).map fun s => (name, s)))
          | some _ => .refuse .notMap
        (flags.both children).map fun (flags, children) => .object flags children
      | _ =>
        let options := Checked.within "options" <|
          match _found : Assoc.find? "options" members with
          | none => .ok []
          | some (.arr items) =>
            Checked.all (items.attach.zipIdx.map fun (⟨j, _⟩, i) =>
              Checked.within (toString i) (decode j))
          | some _ => .refuse .notList
        (flags.both options).map fun (flags, options) => .mixed flags options
  | _ => .refuse .notRecord
termination_by sizeOf j
decreasing_by
  · have := Json.sizeOf_find?_lt _found; simp +arith; omega
  · rename_i member
    have := Json.sizeOf_find?_lt _found
    have := List.sizeOf_lt_of_mem member
    simp +arith at *; omega
  · rename_i member
    have := Json.sizeOf_find?_lt _found
    have := List.sizeOf_lt_of_mem member
    simp +arith at *; omega

end Structure

end SchemaInference
