import SchemaInference.CommandLine.Help
import SchemaInference.CommandLine.Source
import SchemaInference.Json.Writer
import SchemaInference.LogLevel
import SchemaInference.Report
import SchemaInference.Schema.Export
import SchemaInference.Schema.Validate
import SchemaInference.Settings

/-!
Runs of the program: what it logs, what it prints and how it exits, given its arguments, its
environment and what it can read. A run exits with zero if all is well, with one if a document is
not valid, and with two if it could not do its work; some faults it does not handle. What is logged
for those who look for faults in the program itself is left out.
-/

namespace SchemaInference.CommandLine

/-- A fault that ends a run and is not reported by it. -/
inductive Escape where
  | settings (fault : Settings.Fault)
  | load (fault : LoadFault)
  | refused (cause : Refusal)
  | rule (r : KeyRule)
  | unprintable (output : String)
  deriving DecidableEq, Repr

/-- How a run ends. -/
inductive Outcome where
  | exit (status : Nat) (output errors : String)
  | escape (fault : Escape)
  deriving DecidableEq, Repr

/-- A run: what it logs at the usual level and above, and how it ends. -/
structure Run where
  log : List LogLevel.Record
  outcome : Outcome
  deriving DecidableEq, Repr

namespace Outcome

/-- A run that did its work. -/
def done (status : Nat) (output : String) : Outcome := .exit status output ""

/-- A run that reports why it could not do its work. -/
def failed (line : String) : Outcome := .exit 2 "" (line ++ "\n")

/-- A run that did its work if that can be printed. -/
def printed (w : World) (status : Nat) (output : String) : Outcome :=
  if w.prints output then done status output else .escape (.unprintable output)

/-- A run that did its work if there is room for the calls that make the text to print, and it can
be printed. -/
def shown (w : World) (room : Room) (calls : Nat) (output : String) : Outcome :=
  if room.fits calls then printed w 0 (output ++ "\n") else .escape (.refused .tooDeep)

/-- The outcome of a fault in loading, which is reported or not. -/
def ofLoadFault (fault : LoadFault) : Outcome :=
  match fault with
  | .unreadable .. | .malformed .. | .noDocuments _ => failed ("error: " ++ fault.message)
  | .undecodable _ | .tooManyDigits _ | .tooNested _ | .impossibleName | .noInput =>
    .escape (.load fault)

/-- The outcome of a fault in inference: without documents there is a report. -/
def ofInferenceFault (fault : InferenceFault) : Outcome :=
  match fault with
  | .noDocuments _ => failed ("error: " ++ fault.message)
  | .refused cause => .escape (.refused cause)

/-- The outcome of a check that stops. -/
def ofCheckFault : Schema.CheckFault → Outcome
  | .rule r => .escape (.rule r)
  | .refused cause => .escape (.refused cause)

end Outcome

section Commands
variable (w : World) (c : Config) (byLine : Bool) (stack : Stack)

/-- Prints the label of the schema of some documents, or the schema in the language of JSON
Schema. -/
def printSchema (exported : Bool) (documents : List Value) : Outcome :=
  match predict c documents stack with
  | .error fault => .ofInferenceFault fault
  | .ok schema =>
    if exported then
      let document := schema.document ""
      .shown w stack.printing document.height (document.write Json.indented)
    else .shown w stack.printing schema.labelCalls schema.label

/-- Prints the report of the analysis of some documents. -/
def printAnalysis (documents : List Value) : Outcome :=
  match analyze c documents stack with
  | .error fault => .ofInferenceFault fault
  | .ok a => .shown w stack.printing a.report.height (a.report.write Json.indented)

/-- Prints the issues of a document with the schema of some samples, a line each. The document is
all of its source. -/
def printIssues (document : String) (samples : List Value) : Outcome :=
  match predict c samples stack with
  | .error fault => .ofInferenceFault fault
  | .ok schema =>
    match load w false document stack.reading with
    | .error fault => .ofLoadFault fault
    | .ok (documents, _) =>
      match schema.validate (documents.headD .null) stack.checking with
      | .error fault => .ofCheckFault fault
      | .ok [] => .printed w 0 "valid\n"
      | .ok issues => .printed w 1 (String.join (issues.map fun i => i.line ++ "\n"))

/-- The record of samples that have been loaded. -/
def loadedRecord (documents sources : Nat) : LogLevel.Record :=
  ⟨"typepredictor.cli", 20, "Loaded " ++ toString documents ++ " sample documents from "
    ++ toString sources ++ " sources"⟩

/-- Loads samples, logs that, and goes on with them and what is left to read. -/
def withSamples (log : LogLevel.Log) (sources : List String)
    (next : World → List Value → Outcome) : Run :=
  match loadAll w byLine sources stack.reading with
  | .error fault => ⟨[], .ofLoadFault fault⟩
  | .ok (documents, left) =>
    ⟨log.written [loadedRecord documents.length sources.length], next left documents⟩

/-- Does what a command asks for. -/
def runCommand (log : LogLevel.Log) : Command → Run
  | .predict sources exported =>
    withSamples w byLine stack log sources fun left => printSchema left c stack exported
  | .analyze sources =>
    withSamples w byLine stack log sources fun left => printAnalysis left c stack
  | .validate samples document =>
    withSamples w byLine stack log samples fun left => printIssues left c stack document

end Commands

/-- The thresholds of a run: those of the settings, with the depth that was asked for. -/
def thresholds (s : Settings) (maxDepth : Option Int) : Checked Config :=
  match maxDepth with
  | none => .ok s.inference
  | some depth => s.inference.withMaxDepth depth

/-- The log of a run: its level is the one that was asked for, or that of the settings if none was.
-/
def logOf (s : Settings) (logLevel : Option String) : LogLevel.Log :=
  let asked := logLevel.filter (· != "")
  LogLevel.configure .initial (.name (asked.getD s.logLevel))

/-- Runs the program. -/
def run (w : World) (env : Variables) (args : List String) (stack : Stack := .ample) : Run :=
  match Request.read args with
  | .fault fault => ⟨[], .exit 2 "" (Help.usage fault.program ++ fault.line ++ "\n")⟩
  | .help program => ⟨[], .done 0 (Help.full program)⟩
  | .request r =>
    match Settings.load [] env with
    | .error fault => ⟨[], .escape (.settings fault)⟩
    | .ok settings =>
      match thresholds settings r.maxDepth with
      | .faulty faults =>
        ⟨[], .failed ("error: invalid --max-depth: "
          ++ ((faults.head?.map fun f => f.cause.message).getD ""))⟩
      | .ok c => runCommand w c r.byLine stack (logOf settings r.logLevel) r.command

end SchemaInference.CommandLine
