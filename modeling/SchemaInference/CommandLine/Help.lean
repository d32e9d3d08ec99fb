import SchemaInference.CommandLine.Request

/-!
What the program and its commands say of themselves, in lines of eighty columns.
-/

namespace SchemaInference.CommandLine.Help

open Request (program)

/-- Lines, each with a break at its end. -/
def text (lines : List String) : String := String.join (lines.map (· ++ "\n"))

/-- How the program or a command is called. -/
def usage (name : String) : String :=
  text <| match (name.splitOn " ").drop 1 with
    | [] =>
      ["usage: " ++ name ++ " [-h] [--log-level LOG_LEVEL] [--max-depth MAX_DEPTH]",
        "                      [--jsonl]",
        "                      \x7bpredict,analyze,validate\x7d ..."]
    | "predict" :: _ => ["usage: " ++ name ++ " [-h] [--json-schema] files [files ...]"]
    | "analyze" :: _ => ["usage: " ++ name ++ " [-h] files [files ...]"]
    | _ => ["usage: " ++ name ++ " [-h] --sample SAMPLE document"]

/-- What the program or a command takes. -/
def arguments (name : String) : String :=
  text <| match (name.splitOn " ").drop 1 with
    | [] =>
      ["Infer a structural schema from sample JSON documents", "", "positional arguments:",
        "  \x7bpredict,analyze,validate\x7d",
        "    predict             Print the inferred type label or JSON Schema",
        "    analyze             Print paths, structure and per-path predictions",
        "    validate            Validate a document against a schema inferred from",
        "                        samples", "", "options:",
        "  -h, --help            show this help message and exit", "  --log-level LOG_LEVEL",
        "                        Logging level (default from TYPEPREDICTOR_LOG_LEVEL)",
        "  --max-depth MAX_DEPTH",
        "                        Recursion depth before degrading to 'any'",
        "  --jsonl               Treat every input line as a separate document"]
    | "predict" :: _ =>
      ["positional arguments:", "  files          JSON files ('-' for stdin)", "", "options:",
        "  -h, --help     show this help message and exit",
        "  --json-schema  Print a JSON Schema document"]
    | "analyze" :: _ =>
      ["positional arguments:", "  files       JSON files ('-' for stdin)", "", "options:",
        "  -h, --help  show this help message and exit"]
    | _ =>
      ["positional arguments:", "  document         JSON file to validate", "", "options:",
        "  -h, --help       show this help message and exit",
        "  --sample SAMPLE  Sample JSON file (repeatable)"]

/-- The help of the program or a command. -/
def full (name : String) : String := usage name ++ "\n" ++ arguments name

end SchemaInference.CommandLine.Help
