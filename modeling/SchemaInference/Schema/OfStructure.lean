import SchemaInference.Schema.OfLabel
import SchemaInference.Stack
import SchemaInference.Structure.OfTree
import SchemaInference.TypePrediction

/-!
The schema of a structure. Strings at a position where an enumeration was predicted become that
enumeration, and positions below the greatest depth accept anything. Positions in each other are
made by nested calls, for which there has to be room.
-/

namespace SchemaInference

/-- The type predictions of paths. -/
abbrev Predictions := List (Path × TypePrediction)

namespace Schema

/-- The label of scalars at a path, with the enumeration that is predicted there. -/
def refinedLabel (predictions : Predictions) (path : Path) (label : String) : String :=
  match (Assoc.find? path predictions).bind TypePrediction.enumValues with
  | none => label
  | some values =>
    let members := Label.split label
    Label.render members (some values) (members.contains "null") (members.contains "undefined")

/-- The schema of items of which only the tags are known, `depth` lists deep. -/
def ofItemTags (depth : Int) (tags : TagSet) : Schema :=
  if tags.toList.isEmpty then .any
  else (depth - 1).toNat.repeat .list (anyOf ((sortTags tags.toList).map ofLabel))

/-- A schema at a depth, with null beside it if null was seen there. -/
def guarded (c : Config) (depth : Nat) (flags : Flags) (s : Schema) : Schema :=
  if c.maxDepth < depth then .any else if flags.nullable then s.orNull else s

mutual

/-- The schema of a structure at a path. -/
def ofStructureAt (c : Config) (predictions : Predictions) (path : Path) (depth : Nat) :
    Structure → Schema
  | .primitive flags label =>
    guarded c depth flags (ofLabel (refinedLabel predictions path label))
  | .array flags none itemDepth tags => guarded c depth flags (.list (ofItemTags itemDepth tags))
  | .array flags (some element) _ _ =>
    guarded c depth flags
      (.list (ofStructureAt c predictions (path ++ [.wildcard]) (depth + 1) element))
  | .record flags pattern stem label =>
    guarded c depth flags (.record (some pattern.name) (pattern.rule? stem) (ofLabel label))
  | .object flags children =>
    guarded c depth flags (.object (fieldsOf c predictions path depth children) c.strictObjects)
  | .mixed flags options =>
    guarded c depth flags (anyOf (optionsOf c predictions path depth options))

/-- The schemas of the options of a position. -/
def optionsOf (c : Config) (predictions : Predictions) (path : Path) (depth : Nat) :
    List Structure → List Schema
  | [] => []
  | s :: rest =>
    ofStructureAt c predictions path depth s :: optionsOf c predictions path depth rest

/-- The fields of an object. -/
def fieldsOf (c : Config) (predictions : Predictions) (path : Path) (depth : Nat) :
    List (String × Structure) → List (String × Bool × Schema)
  | [] => []
  | (name, s) :: rest =>
    (name, s.flags.optional, ofStructureAt c predictions (path ++ [.key name]) (depth + 1) s)
      :: fieldsOf c predictions path depth rest

end

mutual

/-- How many calls are nested when the schema of a structure is made at a depth. A position below
the greatest depth takes one; from another it is two calls to its variant, one more to the options
or the element and two to the fields. -/
def buildCalls (c : Config) (depth : Nat) (s : Structure) : Nat :=
  if c.maxDepth < depth then 1
  else match s with
    | .primitive .. | .record .. => 2
    | .array _ none _ _ => 3
    | .array _ (some element) _ _ => 3 + buildCalls c (depth + 1) element
    | .object _ children => 4 + fieldCalls c (depth + 1) children
    | .mixed _ options => 3 + optionCalls c depth options

def optionCalls (c : Config) (depth : Nat) : List Structure → Nat
  | [] => 0
  | s :: rest => max (buildCalls c depth s) (optionCalls c depth rest)

def fieldCalls (c : Config) (depth : Nat) : List (String × Structure) → Nat
  | [] => 0
  | (_, s) :: rest => max (buildCalls c depth s) (fieldCalls c depth rest)

end

/-- Makes the schema of a structure at a path, if there is room for the calls. -/
def build (c : Config) (predictions : Predictions) (path : Path) (depth : Nat) (s : Structure)
    (room : Room := none) : Except Refusal Schema :=
  if room.fits (buildCalls c depth s) then .ok (ofStructureAt c predictions path depth s)
  else .error .tooDeep

/-- The schema of the structure of whole documents. -/
def ofStructure (c : Config) (predictions : Predictions) (s : Structure) : Schema :=
  ofStructureAt c predictions [] 0 s

end Schema

end SchemaInference
