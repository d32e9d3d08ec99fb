import SchemaInference.CommandLine.Grammar

/-!
The arguments of this program, and what they ask for.
-/

namespace SchemaInference.CommandLine

/-- What the program is to do. A source is the name of a file, or a dash for standard input. -/
inductive Command where
  | predict (sources : List String) (exported : Bool)
  | analyze (sources : List String)
  | validate (samples : List String) (document : String)
  deriving DecidableEq, Repr

/-- What the program is asked for. -/
structure Request where
  logLevel : Option String
  maxDepth : Option Int
  /-- Whether each line of a source is a document. -/
  byLine : Bool
  command : Command
  deriving DecidableEq, Repr

/-- What arguments come to. -/
inductive Asked where
  | fault (fault : UsageFault)
  | help (program : String)
  | request (request : Request)
  deriving DecidableEq, Repr

namespace Request

/-- The name of the program, as its reports spell it. -/
def program : String := "type-predictor"

/-- Asks for help, with the program and with each command. -/
def help : OptionSpec := { names := ["-h", "--help"], kind := .help }

/-- Says how much is logged, over the settings. -/
def logLevelOption : OptionSpec := { names := ["--log-level"], kind := .text }

/-- Says how deep documents are looked into, over the settings. -/
def maxDepthOption : OptionSpec := { names := ["--max-depth"], kind := .integer }

/-- Says that each line of a source is a document. -/
def byLineOption : OptionSpec := { names := ["--jsonl"], kind := .flag }

/-- Asks for the schema in the language of JSON Schema, not for its label. -/
def exportOption : OptionSpec := { names := ["--json-schema"], kind := .flag }

/-- Names a source of samples. It may be given many times. -/
def sampleOption : OptionSpec := { names := ["--sample"], kind := .text, required := true }

/-- The commands of the program. -/
def commands : List String := ["predict", "analyze", "validate"]

/-- The arguments of the program. -/
def grammar : Grammar :=
  { program, options := [help, logLevelOption, maxDepthOption, byLineOption],
    operand := ⟨"command", .command commands⟩ }

/-- The arguments of a command. -/
def commandGrammar (command : String) : Grammar :=
  let program := program ++ " " ++ command
  match command with
  | "predict" => { program, options := [help, exportOption], operand := ⟨"files", .many⟩ }
  | "analyze" => { program, options := [help], operand := ⟨"files", .many⟩ }
  | _ => { program, options := [help, sampleOption], operand := ⟨"document", .one⟩ }

/-- The values of an option in the order in which they were given. -/
def valuesOf (given : Given) (o : OptionSpec) : List String :=
  (given.options.filter fun (o', _) => o' == o).map Prod.snd

/-- What a command is asked to do. -/
def commandOf (name : String) (given : Given) : Command :=
  match name with
  | "predict" => .predict given.operand (!(valuesOf given exportOption).isEmpty)
  | "analyze" => .analyze given.operand
  | _ => .validate (valuesOf given sampleOption) (given.operand.headD "")

/-- Reads the arguments of the program. Arguments that neither the program nor its command takes are
a fault of the program. -/
def read (args : List String) : Asked :=
  match grammar.read args with
  | .fault cause => .fault ⟨program, cause⟩
  | .help => .help program
  | .given given =>
    let name := given.operand.headD ""
    let g := commandGrammar name
    match g.read (given.operand.drop 1) with
    | .fault cause => .fault ⟨g.program, cause⟩
    | .help => .help g.program
    | .given rest =>
      match given.extras ++ rest.extras with
      | [] =>
        .request
          { logLevel := (valuesOf given logLevelOption).getLast?
            maxDepth := (valuesOf given maxDepthOption).getLast?.bind Text.wholeOfText?
            byLine := !(valuesOf given byLineOption).isEmpty
            command := commandOf name rest }
      | extras => .fault ⟨program, .unrecognized extras⟩

end Request

end SchemaInference.CommandLine
