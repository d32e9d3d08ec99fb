import SchemaInference.CommandLine.Run

/-!
The program. It reads standard input and the files that its arguments name, and does what a run with
them comes to.
-/

namespace SchemaInference.Main

open CommandLine

/-- The names of the variables that are looked at. -/
def variableNames : List String :=
  ["TYPEPREDICTOR_ENVIRONMENT", "TYPEPREDICTOR_LOG_LEVEL", "TYPEPREDICTOR_INFERENCE"]
    ++ Config.fieldNames.map fun field => (Config.family ++ field).map Char.toUpper

/-- The variables that are set, under their names in capitals or in small letters. -/
def environment : IO Variables := do
  let mut env := []
  for name in variableNames ++ variableNames.map (·.map Char.toLower) do
    if let some value ← IO.getEnv name then env := env ++ [(name, value)]
  return env

/-- The number and the sentence that the system has for an error. -/
def systemError : IO.Error → Nat × String
  | .noFileOrDirectory _ code details | .interrupted _ code details
  | .alreadyExists _ code details | .invalidArgument _ code details
  | .permissionDenied _ code details | .resourceExhausted _ code details
  | .inappropriateType _ code details | .noSuchThing _ code details
  | .otherError code details | .resourceBusy code details | .resourceVanished code details
  | .unsupportedOperation code details | .hardwareFault code details
  | .unsatisfiedConstraints code details | .illegalOperation code details
  | .protocolError code details | .timeExpired code details => (code.toNat, details)
  | .unexpectedEof => (5, "Input/output error")
  | .userError details => (5, details)

/-- The fault of a file that an error of the system amounts to. -/
def faultOf (error : IO.Error) : FileFault :=
  match systemError error with
  | (2, _) => .missing
  | (13, _) => .denied
  | (20, _) => .notDirectory
  | (21, _) => .directory
  | (36, _) => .longName
  | (number, sentence) => .other number sentence

/-- The bytes of a file, or why there are none. -/
def readFile (name : String) : IO (Except FileFault (List UInt8)) := do
  try
    return .ok (← IO.FS.readBinFile name).toList
  catch fault => return .error (faultOf fault)

/-- The files that a request names, with what is in them. -/
def filesOf (sources : List String) : IO (List (String × Except FileFault (List UInt8))) :=
  (sources.filter (· != "-")).mapM fun source => do
    let name := fileName source
    return (name, ← readFile name)

/-- The sources that a command reads. -/
def sourcesOf : Command → List String
  | .predict sources _ | .analyze sources => sources
  | .validate samples document => samples ++ [document]

/-- What a run can see. Standard input is read only if the arguments name it. -/
def worldFor (args : List String) : IO World := do
  let sources := match Request.read args with
    | .request r => sourcesOf r.command
    | _ => []
  let files ← filesOf sources
  let input ← if sources.contains "-" then (← IO.getStdin).readBinToEnd else pure .empty
  return {
    read := fun name => (files.lookup name).getD (.error .missing), input := some input.toList }

/-- What is said of a fault that a run does not report. -/
def escapeText : Escape → String
  | .settings (.refused faults) =>
    "; ".intercalate (faults.map fun f => ".".intercalate f.location ++ ": " ++ f.cause.message)
  | .settings (.unreadable field) => field ++ ": no JSON"
  | .load fault => fault.message
  | .refused cause => cause.message
  | .unprintable output => "standard output has no codes for " ++ Text.quoted output
  | .rule r => (r.fault?.map fun fault => fault.message r.text).getD r.text

end SchemaInference.Main

open SchemaInference SchemaInference.CommandLine in
def main (args : List String) : IO UInt32 := do
  let result := run (← Main.worldFor args) (← Main.environment) args
  -- The time of a record is when it is written, which is not known to a run.
  for record in result.log do
    (← IO.getStderr).putStrLn (record.line "-")
  match result.outcome with
  | .exit status output errors =>
    (← IO.getStdout).putStr output
    (← IO.getStderr).putStr errors
    return status.toUInt32
  | .escape fault =>
    (← IO.getStderr).putStrLn (Main.escapeText fault)
    return 1
