import SchemaInference.Config
import SchemaInference.Json.Reader

/-!
Settings of the command line and the service: where it runs, how much it logs, and the thresholds
of inference. A setting comes from an argument, else from a variable of the environment, else it has
its default. Names of variables are read without regard to letter case.
-/

namespace SchemaInference

/-- The variables of the environment with their values. -/
abbrev Variables := List (String × String)

namespace Variables

/-- The value of a variable; of several that differ in letter case only, the last. -/
def value? (env : Variables) (name : String) : Option String :=
  let lower (s : String) := s.map Char.toLower
  (env.reverse.find? fun (other, _) => lower other == lower name).map Prod.snd

/-- The members that the environment gives to an object: for each field the variable that is named
like it, after the family's name. -/
def members (env : Variables) (family : String) (fields : List String) : List (String × Json) :=
  fields.filterMap fun field => (env.value? (family ++ field)).map fun text => (field, .str text)

end Variables

/-- The members of one object over those of another. Objects that both have are merged again. -/
def mergeMembers (top bottom : List (String × Json)) : List (String × Json) :=
  top.foldl (fun done (name, j) =>
    let j := match Assoc.find? name done, j with
      | some (.obj below), .obj above => .obj (Assoc.ofPairs (below ++ above))
      | _, j => j
    Assoc.insert name j done) bottom

namespace Config

/-- The family of the variables that give thresholds. -/
def family : String := "TYPEPREDICTOR_INFERENCE_"

/-- The thresholds from arguments, and from the environment where there is no argument. -/
def load (args : List (String × Json)) (env : Variables) : Checked Config :=
  ofMembers (mergeMembers args (env.members family fieldNames))

/-- Members whose names are those of thresholds in another letter case get the proper names. -/
def properNames (members : List (String × Json)) : List (String × Json) :=
  Assoc.ofPairs <| members.map fun (name, j) =>
    let proper := fieldNames.find? fun field => field == name.map Char.toLower
    (proper.getD name, j)

end Config

/-- Where the program runs. -/
inductive Deployment where
  | dev
  | uat
  | prod
  deriving DecidableEq, Repr

namespace Deployment

/-- The places where the program can run. -/
def all : List Deployment := [.dev, .uat, .prod]

/-- The name of a place. -/
def name : Deployment → String
  | .dev => "dev"
  | .uat => "uat"
  | .prod => "prod"

/-- The place that a text names. -/
def decode (j : Json) : Checked Deployment :=
  .ofOption (.notOneOf "literal_error" (all.map name))
    (j.str?.bind fun s => all.find? fun d => d.name == s)

end Deployment

/-- The settings of the command line and the service. -/
structure Settings where
  deployment : Deployment := .dev
  logLevel : String := "INFO"
  inference : Config := {}
  deriving DecidableEq

namespace Settings

/-- The family of the variables that give settings. -/
def family : String := "TYPEPREDICTOR_"

/-- Why settings cannot be loaded: fields that are refused, or a variable that is to hold JSON and
does not. -/
inductive Fault where
  | refused (faults : List FieldFault)
  | unreadable (field : String)
  deriving DecidableEq, Repr

/-- The members that the environment gives. The thresholds are one variable with an object. -/
def environmentMembers (env : Variables) : Except Fault (List (String × Json)) :=
  let plain := env.members family ["environment", "log_level"]
  match env.value? (family ++ "inference") with
  | none => .ok plain
  | some text =>
    match Json.read text.toList with
    | .error _ => .error (.unreadable "inference")
    | .ok .null => .ok plain
    | .ok (.obj members) => .ok (plain ++ [("inference", .obj (Config.properNames members))])
    | .ok j => .ok (plain ++ [("inference", j)])

/-- Thresholds that are set as an object. What the object leaves out comes from the environment. -/
def decodeInference (env : Variables) : Json → Checked Config
  | .obj members => Config.load members env
  | _ => .refuse (.notModel "InferenceConfig")

/-- Decodes the members of an object. -/
def ofMembers (members : List (String × Json)) (env : Variables) : Checked Settings :=
  let deployment := Field.withDefault members "environment" .dev Deployment.decode
  let logLevel := Field.withDefault members "log_level" "INFO" Field.string
  let inference := Field.withDefault members "inference" default (decodeInference env)
  let known := Field.onlyKnown ["environment", "log_level", "inference"] members
  ((deployment.both (logLevel.both inference)).both known).map
    fun ((deployment, logLevel, inference), ()) => ⟨deployment, logLevel, inference⟩

/-- The settings from arguments, and from the environment where there is no argument. The thresholds
that hold when neither sets them do not come from single variables. -/
def load (args : List (String × Json)) (env : Variables) : Except Fault Settings :=
  match environmentMembers env with
  | .error fault => .error fault
  | .ok members =>
    match ofMembers (mergeMembers args members) env with
    | .ok settings => .ok settings
    | .faulty faults => .error (.refused faults)

/-- The settings as an object. -/
def toJson (s : Settings) : Json :=
  .obj [("environment", .str s.deployment.name), ("log_level", .str s.logLevel),
    ("inference", s.inference.toJson)]

end Settings

end SchemaInference
