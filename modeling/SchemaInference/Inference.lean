import SchemaInference.Samples.Walk
import SchemaInference.Schema.Check
import SchemaInference.Schema.OfStructure
import SchemaInference.TypePrediction.OfValues

/-!
Inference: from sample documents to a schema that accepts them all. The samples are collected, the
structure and the type predictions are found from them, and both make the schema. What cannot be
written or told from others is refused on the way, and so is what is nested too deep for the stack.
-/

namespace SchemaInference

/-- What is asked for. -/
inductive Inquiry where
  | predict
  | analyze
  deriving DecidableEq, Repr

/-- Why nothing can be inferred: there are no documents, or something is refused. -/
inductive InferenceFault where
  | noDocuments (inquiry : Inquiry)
  | refused (cause : Refusal)
  deriving DecidableEq, Repr

namespace InferenceFault

/-- The sentence for a fault. -/
def message : InferenceFault → String
  | .noDocuments .predict => "predict() needs at least one sample document"
  | .noDocuments .analyze => "analyze() needs at least one sample document"
  | .refused cause => cause.message

end InferenceFault

/-- What is found out about documents, short of a schema. -/
structure Analysis where
  samples : Samples
  shape : Structure
  predictions : Predictions

namespace Analysis

/-- The summaries of the positions where there are values. -/
def summaries (a : Analysis) : List PathSummary := a.samples.summaries

/-- The schema that the findings make. -/
def schema (a : Analysis) (c : Config) : Schema := .ofStructure c a.predictions a.shape

/-- Makes the schema of the findings. -/
def build (a : Analysis) (c : Config) (stack : Stack := .ample) : Except InferenceFault Schema :=
  (Schema.build c a.predictions [] 0 a.shape stack.building).mapError .refused

end Analysis

namespace Samples

/-- The structure of the position at a path, seen from a depth. -/
def structureAt (s : Samples) (c : Config) (path : Path) (depth : Int) (stack : Stack := .ample) :
    Except InferenceFault Structure :=
  let tree := PathTree.ofSamples s
  let levels := c.levels depth
  match stack.telling.refusal? (tree.structureSteps c 0 levels path) with
  | some cause => .error (.refused cause)
  | none => .ok (tree.structureAt c levels path)

/-- The findings of samples. -/
def analysis (s : Samples) (c : Config) (stack : Stack := .ample) :
    Except InferenceFault Analysis :=
  (s.structureAt c [] 0 stack).map fun shape => ⟨s, shape, s.typePredictions c⟩

/-- The schema of samples. -/
def schema (s : Samples) (c : Config) (stack : Stack := .ample) : Except InferenceFault Schema := do
  let a ← s.analysis c stack
  a.build c stack

/-- The samples that inference collects. -/
def collected (c : Config) (documents : List Value) (stack : Stack := .ample) :
    Except InferenceFault Samples :=
  (collectAll c.maxDepth documents stack.writing).mapError .refused

end Samples

/-- The findings of documents. -/
def analyze (c : Config) (documents : List Value) (stack : Stack := .ample) :
    Except InferenceFault Analysis :=
  if documents.isEmpty then .error (.noDocuments .analyze)
  else do
    let s ← Samples.collected c documents stack
    s.analysis c stack

/-- The schema of documents that have nothing to look into: all null, all empty lists, or all empty
maps. -/
def plainSchema? (c : Config) (documents : List Value) : Option Schema :=
  if documents.all Value.isNull then some .null
  else if documents.all fun v => v.items?.any List.isEmpty then some (.list .any)
  else if documents.all fun v => v.entries?.any List.isEmpty then some (.object [] c.strictObjects)
  else none

/-- The schema of documents. -/
def predict (c : Config) (documents : List Value) (stack : Stack := .ample) :
    Except InferenceFault Schema :=
  if documents.isEmpty then .error (.noDocuments .predict)
  else
    match plainSchema? c documents with
    | some schema => .ok schema
    | none => do
      let s ← Samples.collected c documents stack
      s.schema c stack

end SchemaInference
