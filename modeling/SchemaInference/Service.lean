import SchemaInference.Json.Reader
import SchemaInference.Report
import SchemaInference.Schema.Export
import SchemaInference.Settings
import SchemaInference.Value.Document

/-!
The service: inference for documents in the bodies of requests. A body that is no request is
answered with what is wrong and where; some faults the service does not handle.
-/

namespace SchemaInference.Service

/-- A request. A body without characters counts as none. -/
structure Request where
  method : String
  path : String
  body : List Char

/-- An answer, by its status and its body. -/
structure Response where
  status : Nat
  body : Json

/-- A fault that is not answered: settings that cannot be loaded, or an answer with a number that
JSON has no name for. -/
inductive Fault where
  | settings (fault : Settings.Fault)
  | inference (fault : InferenceFault)
  | notFinite
  deriving DecidableEq, Repr

/-- What is said of an answer that cannot be written. -/
def notFiniteMessage : String := "Out of range float values are not JSON compliant"

/-- The ways that requests can take. -/
inductive Endpoint where
  | health
  | ready
  | predict
  | analyze
  | validate
  deriving DecidableEq, Repr

namespace Endpoint

/-- The path of an endpoint. -/
def path : Endpoint → String
  | .health => "/health"
  | .ready => "/ready"
  | .predict => "/predict"
  | .analyze => "/analyze"
  | .validate => "/validate"

/-- The one method that an endpoint answers to. -/
def method : Endpoint → String
  | .health | .ready => "GET"
  | .predict | .analyze | .validate => "POST"

/-- The endpoints. -/
def all : List Endpoint := [.health, .ready, .predict, .analyze, .validate]

/-- A path without what follows a question mark or a number sign, and without slashes at its end. -/
def trimPath (path : String) : String :=
  let cs := path.toList.takeWhile fun c => c != '?' && c != '#'
  String.ofList (cs.reverse.dropWhile (· == '/')).reverse

/-- The endpoint of a path. -/
def ofPath? (path : String) : Option Endpoint := all.find? fun e => e.path == trimPath path

end Endpoint

/-- What is wrong with a body: a place in it, the cause, and what was found there. A position in the
text of a body is a number. -/
structure BodyFault where
  location : List Json
  cause : FieldCause
  input : Json

namespace BodyFault

/-- What a cause says beyond its sentence. -/
def context : FieldCause → List (String × Json)
  | .tooShort least actual =>
    [("ctx", .obj [("field_type", .str "List"), ("min_length", .int least),
      ("actual_length", .int actual)])]
  | .malformed message => [("ctx", .obj [("error", .str message)])]
  | _ => []

/-- A fault as an object. -/
def toJson (f : BodyFault) : Json :=
  .obj ([("type", .str f.cause.code), ("loc", .arr (.str "body" :: f.location)),
    ("msg", .str f.cause.message), ("input", f.input)] ++ context f.cause)

end BodyFault

mutual

/-- Whether JSON has a name for every number in a value. -/
def isFinite : Json → Bool
  | .real (.finite ..) => true
  | .real _ => false
  | .arr items => areFinite items
  | .obj members => membersAreFinite members
  | _ => true

def areFinite : List Json → Bool
  | [] => true
  | j :: rest => isFinite j && areFinite rest

def membersAreFinite : List (String × Json) → Bool
  | [] => true
  | (_, j) :: rest => isFinite j && membersAreFinite rest

end

/-- An answer that says why there is no better one. -/
def detail (status : Nat) (message : String) : Response :=
  ⟨status, .obj [("detail", .str message)]⟩

/-- The answer to a body that is no request. -/
def refusal (f : BodyFault) : Except Fault Response :=
  if isFinite f.input then .ok ⟨422, .obj [("detail", .arr [f.toJson])]⟩ else .error .notFinite

/-- The JSON of a body, or the answer if there is none. A byte order mark may come first. -/
def bodyJson (body : List Char) : Except (Except Fault Response) Json :=
  if body.isEmpty then .error (refusal ⟨[], .missing, .null⟩)
  else
    let cs := match body with
      | '\uFEFF' :: cs => cs
      | cs => cs
    match Json.read cs with
    | .ok j => .ok j
    | .error (.malformed cause position) =>
      .error (refusal ⟨[.int position], .malformed cause.message, .obj []⟩)
    | .error _ => .error (.ok (detail 400 "There was an error parsing the body"))

/-- The documents under a name in a body, of which there must be one. -/
def bodyDocuments (name : String) (j : Json) : Except (Except Fault Response) (List Value) :=
  match j with
  | .obj members =>
    match Assoc.find? name members with
    | none => .error (refusal ⟨[.str name], .missing, j⟩)
    | some (.arr []) => .error (refusal ⟨[.str name], .tooShort 1 0, .arr []⟩)
    | some (.arr items) => .ok (Value.ofJsonItems items)
    | some other => .error (refusal ⟨[.str name], .notList, other⟩)
  | _ => .error (refusal ⟨[], .notRecord, j⟩)

/-- The settings of a service that has been started, or the environment of one that has not and
loads its settings for each request. -/
inductive State where
  | started (settings : Settings)
  | idle (env : Variables)

/-- Starts a service. -/
def start (env : Variables) : Except Fault State :=
  match Settings.load [] env with
  | .ok settings => .ok (.started settings)
  | .error fault => .error (.settings fault)

namespace State

/-- The thresholds for a request. -/
def config : State → Except Fault Config
  | .started settings => .ok settings.inference
  | .idle env =>
    match Settings.load [] env with
    | .ok settings => .ok settings.inference
    | .error fault => .error (.settings fault)

end State

/-- The answer of a service that is alive. -/
def health : Response :=
  ⟨200, .obj [("status", .str "healthy"), ("service", .str "type-predictor")]⟩

/-- The answer of a service as to whether it has been started. -/
def ready : State → Response
  | .started settings =>
    ⟨200, .obj [("status", .str "ready"), ("environment", .str settings.deployment.name),
      ("max_depth", .int settings.inference.maxDepth)]⟩
  | .idle _ => detail 503 "Settings not loaded"

/-- What inference gives, or its fault. -/
def inferred (a : Except InferenceFault α) : Except Fault α :=
  match a with
  | .ok a => .ok a
  | .error fault => .error (.inference fault)

/-- The label and the exported schema of documents. -/
def predictResponse (s : State) (documents : List Value) : Except Fault Response := do
  let schema ← inferred (predict (← s.config) documents)
  .ok ⟨200, .obj [("label", .str schema.label), ("json_schema", schema.document "")]⟩

/-- The report on documents. -/
def analyzeResponse (s : State) (documents : List Value) : Except Fault Response := do
  let a ← inferred (analyze (← s.config) documents)
  .ok ⟨200, a.report⟩

/-- An issue as an object. -/
def issueJson (i : Issue) : Json :=
  .obj [("path", .str i.path), ("message", .str i.cause.message),
    ("expected", .str i.cause.expected), ("received", .str i.cause.received)]

/-- The issues of a document with the schema of samples. A document that is not there is null. -/
def validateResponse (s : State) (samples : List Value) (body : Json) : Except Fault Response := do
  let schema ← inferred (predict (← s.config) samples)
  let issues := schema.issues (.ofJson (Json.orNull (body.member? "document")))
  .ok ⟨200, .obj [("success", .bool issues.isEmpty), ("issues", .arr (issues.map issueJson))]⟩

/-- The answer to a body at an endpoint, given the name of its documents. -/
def respondTo (body : List Char) (name : String)
    (respond : List Value → Json → Except Fault Response) : Except Fault Response :=
  match bodyJson body with
  | .error response => response
  | .ok j =>
    match bodyDocuments name j with
    | .error response => response
    | .ok documents => respond documents j

/-- The answer to a request. -/
def respond (s : State) (r : Request) : Except Fault Response :=
  match Endpoint.ofPath? r.path with
  | none => .ok (detail 404 "Not Found")
  | some endpoint =>
    if endpoint.method != r.method.map Char.toUpper then .ok (detail 405 "Method Not Allowed")
    else
      match endpoint with
      | .health => .ok health
      | .ready => .ok (ready s)
      | .predict => respondTo r.body "documents" fun documents _ => predictResponse s documents
      | .analyze => respondTo r.body "documents" fun documents _ => analyzeResponse s documents
      | .validate => respondTo r.body "samples" fun samples j => validateResponse s samples j

end SchemaInference.Service
