import SchemaInference.Proofs.Collection
import SchemaInference.Proofs.Likeness
import SchemaInference.Tag

/-! Documents that differ only in order. A document leaves a trace at every flat path into it, and
reordering the items of lists and the entries of maps reorders the traces and changes none. So do
the documents of a list, and copies of documents leave copies of their traces. -/
namespace SchemaInference

namespace Value

/-- Values that differ only in the order of the items of lists and of the entries of maps, at any
depth. Leaves are never changed. -/
inductive Reordered : Value → Value → Prop where
  | refl (v : Value) : Reordered v v
  | trans {v v' v'' : Value} (first : Reordered v v') (second : Reordered v' v'') : Reordered v v''
  | items (form : ListForm) {items items' : List Value} (perm : items.Perm items') :
      Reordered (.list form items) (.list form items')
  | entries (form : MapForm) {entries entries' : List (Value × Value)}
      (perm : entries.Perm entries') :
      Reordered (.map form entries) (.map form entries')
  | item (form : ListForm) (before after : List Value) {v v' : Value} (below : Reordered v v') :
      Reordered (.list form (before ++ v :: after)) (.list form (before ++ v' :: after))
  | entry (form : MapForm) (before after : List (Value × Value)) (key : Value) {v v' : Value}
      (below : Reordered v v') :
      Reordered (.map form (before ++ (key, v) :: after)) (.map form (before ++ (key, v') :: after))

end Value

/-- Lists of documents that differ only in order: their own, and that of what the documents hold. -/
def Reorders (documents documents' : List Value) : Prop :=
  ∃ mid, documents.Perm mid ∧ List.Forall₂ Value.Reordered mid documents'

/-! ## Traces -/

/-- What a visit leaves behind: a leaf itself, of a list that it is one, and of a map its keys as a
set. A map that is not entered leaves no keys. -/
inductive Trace where
  | leaf (v : Value)
  | list
  | map (keys : List String)
  | uncounted

namespace Visit

/-- The trace of a value that is filed. -/
def traceOf (v : Value) : Trace :=
  match v with
  | .list .. => .list
  | .map .. => .uncounted
  | v => .leaf v

/-- The trace of a visit, at a flat path. -/
def trace : Visit → Path × Trace
  | .sample path v | .cut path v => (path.flat, traceOf v)
  | .map path keys => (path.flat, .map (ascending keys))

end Visit

namespace Value
variable {limit : Nat} {path other : Path}

/-- The traces of a value at a path. -/
def traces (limit : Nat) (path : Path) (v : Value) : List (Path × Trace) :=
  (v.visits limit path).map Visit.trace

/-- The trace of a value itself. -/
def traceAt (limit : Nat) (path : Path) (v : Value) : Path × Trace := (visitAt limit path v).trace

theorem traceAt_congr (same : path.flat = other.flat) (v : Value) :
    traceAt limit path v = traceAt limit other v := by
  have length : path.length = other.length := by simpa using congrArg List.length same
  unfold traceAt visitAt
  rw [length]
  split
  · simp [Visit.trace, same]
  · cases v <;> simp [Visit.trace, same]

private theorem traces_visits (limit : Nat) (path : Path) (v : Value) :
    traces limit path v = traceAt limit path v ::
      if limit < path.length then [] else (visitsBelow limit path v).map Visit.trace := by
  rw [traces, visits_eq, List.map_cons, traceAt, apply_ite (List.map Visit.trace), List.map_nil]

/-- Traces do not show the positions that a concrete path passes. -/
theorem traces_congr (same : path.flat = other.flat) (v : Value) :
    traces limit path v = traces limit other v := by
  have length {path other : Path} (same : path.flat = other.flat) : path.length = other.length := by
    simpa using congrArg List.length same
  induction v using Value.ind generalizing path other with
  | leaf v notList notMap =>
    have nothing (path : Path) : visitsBelow limit path v = [] := by
      cases v <;> first | rfl | contradiction
    rw [traces_visits, traces_visits, nothing, nothing, traceAt_congr same, length same]
  | list form items ih =>
    have below : (visitsBelow limit path (.list form items)).map Visit.trace =
        (visitsBelow limit other (.list form items)).map Visit.trace := by
      simp only [visitsBelow, List.map_flatMap]
      refine List.flatMap_congr fun pair member => ?_
      exact ih pair.1 (List.fst_mem_of_mem_zipIdx member) (by simp [same])
    rw [traces_visits, traces_visits, below, traceAt_congr same, length same]
  | map form entries ih =>
    have below : (visitsBelow limit path (.map form entries)).map Visit.trace =
        (visitsBelow limit other (.map form entries)).map Visit.trace := by
      simp only [visitsBelow, List.map_flatMap]
      refine List.flatMap_congr fun entry member => ?_
      exact ih entry member (by simp [same])
    rw [traces_visits, traces_visits, below, traceAt_congr same, length same]

theorem traces_list (form : ListForm) (items : List Value) :
    traces limit path (.list form items) = (path.flat, .list) ::
      if limit < path.length then [] else items.flatMap (traces limit (path ++ [.wildcard])) := by
  have each :
      (items.zipIdx.flatMap fun pair => traces limit (path ++ [Segment.item pair.2]) pair.1) =
      items.zipIdx.flatMap fun pair => traces limit (path ++ [Segment.wildcard]) pair.1 :=
    List.flatMap_congr fun pair _ => traces_congr (by simp [Segment.item, Segment.wildcard]) pair.1
  have here : traceAt limit path (.list form items) = (path.flat, .list) := by
    unfold traceAt visitAt
    split <;> rfl
  rw [traces_visits, visitsBelow, List.map_flatMap, here]
  congr 2
  refine each.trans ?_
  rw [← List.flatMap_map, List.zipIdx_map_fst]

theorem traces_map (form : MapForm) (entries : List (Value × Value)) :
    traces limit path (.map form entries) = traceAt limit path (.map form entries) ::
      if limit < path.length then []
      else entries.flatMap fun entry => traces limit (path ++ [.key entry.1.alone]) entry.2 := by
  rw [traces_visits, visitsBelow, List.map_flatMap]
  rfl

/-- The trace of a map shows its keys as a set. -/
theorem traceAt_map (form : MapForm) (entries entries' : List (Value × Value))
    (same : ∀ name, name ∈ entries.map (fun entry => entry.1.alone) ↔
      name ∈ entries'.map fun entry => entry.1.alone) :
    traceAt limit path (.map form entries) = traceAt limit path (.map form entries') := by
  unfold traceAt visitAt
  split
  · rfl
  · simp only [Visit.trace, ascending_congr same]

/-- Reordering a document reorders its traces. -/
theorem traces_perm {v v' : Value} (reordered : v.Reordered v') :
    (traces limit path v).Perm (traces limit path v') := by
  induction reordered generalizing path with
  | refl v => exact .refl _
  | trans _ _ first second => exact first.trans second
  | items form perm =>
    rw [traces_list, traces_list]
    refine .cons _ ?_
    split
    · exact .refl _
    · exact perm.flatMap_right _
  | entries form perm =>
    rw [traces_map, traces_map, traceAt_map form _ _ fun name => (perm.map _).mem_iff]
    refine .cons _ ?_
    split
    · exact .refl _
    · exact perm.flatMap_right _
  | item form before after _ ih =>
    rw [traces_list, traces_list]
    refine .cons _ ?_
    split
    · exact .refl _
    · simp only [List.flatMap_append, List.flatMap_cons]
      exact .append_left _ (.append_right _ ih)
  | @entry form before after key v v' _ ih =>
    have keys := @traceAt_map limit path form (before ++ (key, v) :: after)
      (before ++ (key, v') :: after) (by simp)
    rw [traces_map, traces_map, keys]
    refine .cons _ ?_
    split
    · exact .refl _
    · simp only [List.flatMap_append, List.flatMap_cons]
      exact .append_left _ (.append_right _ ih)

end Value

/-- The traces of documents. -/
def tracesOf (limit : Nat) (documents : List Value) : List (Path × Trace) :=
  documents.flatMap (Value.traces limit [])

theorem tracesOf_perm {limit : Nat} {documents documents' : List Value}
    (reordered : Reorders documents documents') :
    (tracesOf limit documents).Perm (tracesOf limit documents') := by
  obtain ⟨mid, perm, each⟩ := reordered
  refine (perm.flatMap_right _).trans ?_
  clear perm
  induction each with
  | nil => exact .refl _
  | cons first _ rest => exact (Value.traces_perm first).append rest

end SchemaInference
