import SchemaInference.Assoc
import SchemaInference.Config
import SchemaInference.Path
import SchemaInference.Value.Written

/-!
Samples: what is seen at each position of some documents. A document is visited from the top down
and from left to right. Values other than maps are filed under the flat form of their path, and for
every map its keys are; what lies beyond the greatest depth is filed whole and not entered.
-/

namespace SchemaInference

/-- What a visit of a document meets at a concrete path: a value, a map with the texts of its keys,
or a value beyond the greatest depth. -/
inductive Visit where
  | sample (path : Path) (value : Value)
  | map (path : Path) (keys : List String)
  | cut (path : Path) (value : Value)

namespace Value

mutual

/-- The visits of a value at a path, itself first. -/
def visits (limit : Nat) (path : Path) : Value → List Visit
  | .map form entries =>
    if limit < path.length then [.cut path (.map form entries)]
    else .map path (entries.map fun (key, _) => key.alone) :: entryVisits limit path entries
  | .list form items =>
    if limit < path.length then [.cut path (.list form items)]
    else .sample path (.list form items) :: itemVisits limit path 0 items
  | v => if limit < path.length then [.cut path v] else [.sample path v]

/-- The visits of the items of a list, the first of which has this position. -/
def itemVisits (limit : Nat) (path : Path) (position : Nat) : List Value → List Visit
  | [] => []
  | v :: rest =>
    visits limit (path ++ [.item position]) v ++ itemVisits limit path (position + 1) rest

/-- The visits of the values in a map. -/
def entryVisits (limit : Nat) (path : Path) : List (Value × Value) → List Visit
  | [] => []
  | (key, v) :: rest =>
    visits limit (path ++ [.key key.alone]) v ++ entryVisits limit path rest

end

end Value

/-- The values seen at one position, and the first concrete path that led there. -/
structure Bucket where
  firstPath : Path
  values : List Value

namespace Bucket

/-- A bucket with one value more. -/
def add (path : Path) (v : Value) : Option Bucket → Bucket
  | none => ⟨path, [v]⟩
  | some b => { b with values := b.values ++ [v] }

end Bucket

/-- The samples of some documents. Buckets and key sets are found by flat paths and stand in the
order in which the paths were first met. -/
structure Samples where
  buckets : List (Path × Bucket) := []
  keySets : List (Path × List (List String)) := []
  documents : Nat := 0
  truncated : Nat := 0

namespace Samples

/-- The samples of no documents. -/
def empty : Samples := {}

/-- Files what one visit meets. -/
def record (s : Samples) : Visit → Samples
  | .sample path v => { s with buckets := Assoc.update path.flat (Bucket.add path v) s.buckets }
  | .map path keys =>
    { s with keySets := Assoc.update path.flat (fun sets => sets.getD [] ++ [keys]) s.keySets }
  | .cut path v =>
    { s with buckets := Assoc.update path.flat (Bucket.add path v) s.buckets,
             truncated := s.truncated + 1 }

/-- Adds the samples of a document. -/
def add (limit : Nat) (s : Samples) (document : Value) : Samples :=
  (document.visits limit []).foldl record { s with documents := s.documents + 1 }

/-- The samples of some documents. -/
def ofDocuments (limit : Nat) (documents : List Value) : Samples :=
  documents.foldl (add limit) empty

/-- The values at a flat path. -/
def valuesAt (s : Samples) (path : Path) : List Value :=
  match Assoc.find? path s.buckets with
  | some b => b.values
  | none => []

/-- The key sets of the maps at a flat path. -/
def keySetsAt (s : Samples) (path : Path) : List (List String) :=
  (Assoc.find? path s.keySets).getD []

/-- Whether a map was met at a flat path. -/
def hasMap (s : Samples) (path : Path) : Bool := Assoc.contains path s.keySets

/-- The flat paths at which anything was met: those of values first, then those of maps alone. -/
def paths (s : Samples) : List Path :=
  let ofBuckets := Assoc.keys s.buckets
  ofBuckets ++ (Assoc.keys s.keySets).filter fun path => !ofBuckets.contains path

/-- Whether some map at the parent of a path lacks its last key. -/
def lacksLast (s : Samples) (path : Path) : Bool :=
  match path.getLast? with
  | some (.key name) => (s.keySetsAt path.dropLast).any fun keys => !keys.contains name
  | _ => false

end Samples

/-- What is reported of the values at one position. -/
structure PathSummary where
  path : Path
  firstPath : Path
  tag : String
  nullable : Bool
  occurrences : Nat
  texts : List String
  deriving DecidableEq, Repr

namespace PathSummary

/-- The distinct texts of a list in the order in which they first come. -/
def distinct (texts : List String) : List String :=
  texts.foldl (fun done s => if done.contains s then done else done ++ [s]) []

/-- The summary of a bucket. It has the tag of the first value. -/
def ofBucket (path : Path) (b : Bucket) : PathSummary :=
  { path := path
    firstPath := b.firstPath
    tag := (b.values.head?.getD .null).tag
    nullable := b.values.any Value.isNull
    occurrences := b.values.length
    texts := distinct (b.values.filterMap Value.text?) }

end PathSummary

/-- The summaries of all positions at which there are values. -/
def Samples.summaries (s : Samples) : List PathSummary :=
  s.buckets.map fun (path, b) => PathSummary.ofBucket path b

end SchemaInference
