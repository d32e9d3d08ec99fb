import SchemaInference.Proofs.Records
import SchemaInference.Proofs.Reordering

/-! Samples that match. Samples of documents that differ in order, or in copies, have the same
paths, the same lists and maps there and the same leaves, apart from copies of some. That is all
that the schema of a position looks at. -/
namespace SchemaInference

namespace Value

/-- Whether a value has no parts that take part in inference. -/
def isBare (v : Value) : Bool := !v.isList && !v.isMap

/-- A leaf that may be copied: it is no other value than itself, or it cannot be told apart at
all. -/
def Steady (v : Value) : Prop := v.alike v = true ∨ v.isRefused = true

/-- A document that may be repeated, because every leaf in it may be copied. -/
def LeavesSteady (document : Value) : Prop :=
  ∀ path v, document.Holds path v → v.isBare = true → v.Steady

end Value

/-- The leaf that a trace at a path is. -/
def leafUnder? (path : Path) (trace : Path × Trace) : Option Value :=
  if trace.1 = path then
    match trace.2 with
    | .leaf v => some v
    | _ => none
  else none

namespace Visit
variable {path : Path} {visit : Visit}

theorem leafUnder?_trace :
    leafUnder? path visit.trace = (visit.valueUnder? path).filter Value.isBare := by
  unfold leafUnder? valueUnder?
  have shown (visited : Path) (v : Value) : leafUnder? path (visited.flat, traceOf v) =
      (if visited.flat = path then some v else none).filter Value.isBare := by
    unfold leafUnder?
    by_cases same : visited.flat = path
    · rw [if_pos same, if_pos same]
      cases v <;> rfl
    · simp [same]
  cases visit with
  | sample visited v => exact shown visited v
  | cut visited v => exact shown visited v
  | map visited keys =>
    by_cases same : visited.flat = path <;> simp [trace, value?, Visit.path, same]

theorem trace_eq_list_iff : visit.trace = (path, .list) ↔
    ∃ v, visit.valueUnder? path = some v ∧ v.isList = true := by
  have shown (visited : Path) (v : Value) : (visited.flat, traceOf v) = (path, .list) ↔
      ∃ w, (if visited.flat = path then some v else none) = some w ∧ w.isList = true := by
    cases v <;> simp [traceOf, Value.isList]
  cases visit with
  | sample visited v => exact shown visited v
  | cut visited v => exact shown visited v
  | map visited keys => simp [trace, valueUnder?, value?]

theorem trace_eq_uncounted_iff : visit.trace = (path, .uncounted) ↔
    ∃ v, visit.valueUnder? path = some v ∧ v.isMap = true := by
  have shown (visited : Path) (v : Value) : (visited.flat, traceOf v) = (path, .uncounted) ↔
      ∃ w, (if visited.flat = path then some v else none) = some w ∧ w.isMap = true := by
    cases v <;> simp [traceOf, Value.isMap]
  cases visit with
  | sample visited v => exact shown visited v
  | cut visited v => exact shown visited v
  | map visited keys => simp [trace, valueUnder?, value?]

theorem trace_eq_map_iff {row : List String} : visit.trace = (path, .map row) ↔
    ∃ keys, visit.keysUnder? path = some keys ∧ ascending keys = row := by
  cases visit with
  | sample visited v => cases v <;> simp [trace, traceOf, keysUnder?, keys?]
  | cut visited v => cases v <;> simp [trace, traceOf, keysUnder?, keys?]
  | map visited keys =>
    by_cases same : visited.flat = path <;> simp [trace, keysUnder?, keys?, Visit.path, same]

theorem fst_trace : visit.trace.1 = visit.path.flat := by cases visit <;> rfl

end Visit

namespace Samples
variable {s s' : Samples} {limit : Nat} {path : Path} {documents documents' : List Value}

/-- The leaves that were seen at a path. -/
def leavesAt (s : Samples) (path : Path) : List Value := (s.valuesAt path).filter Value.isBare

/-- Samples that match others, in which some leaves may be copied. -/
structure Matches (s s' : Samples) : Prop where
  paths : ∀ path, path ∈ s.paths ↔ path ∈ s'.paths
  lists : ∀ path, (∃ v ∈ s.valuesAt path, v.isList = true) ↔ ∃ v ∈ s'.valuesAt path, v.isList = true
  maps : ∀ path, (∃ v ∈ s.valuesAt path, v.isMap = true) ↔ ∃ v ∈ s'.valuesAt path, v.isMap = true
  keys : ∀ path row, (∃ keys ∈ s.keySetsAt path, ascending keys = row) ↔
    ∃ keys ∈ s'.keySetsAt path, ascending keys = row
  leaves : ∀ path, ∃ copies, (s'.leavesAt path).Perm (s.leavesAt path ++ copies) ∧
    ∀ v ∈ copies, v ∈ s.leavesAt path ∧ v.Steady

/-! ## Samples as their traces -/

theorem tracesOf_eq : tracesOf limit documents = (visitsOf limit documents).map Visit.trace := by
  rw [tracesOf, visitsOf, List.map_flatMap]
  rfl

theorem leavesAt_ofDocuments : (ofDocuments limit documents).leavesAt path =
    (tracesOf limit documents).filterMap (leafUnder? path) := by
  rw [leavesAt, valuesAt_ofDocuments, List.filter_filterMap, tracesOf_eq, List.filterMap_map]
  exact List.filterMap_congr fun visit _ => Visit.leafUnder?_trace.symm

theorem mem_tracesOf_list : (path, .list) ∈ tracesOf limit documents ↔
    ∃ v ∈ (ofDocuments limit documents).valuesAt path, v.isList = true := by
  simp only [tracesOf_eq, List.mem_map, Visit.trace_eq_list_iff, valuesAt_ofDocuments,
    List.mem_filterMap]
  exact ⟨fun ⟨visit, among, v, found, isList⟩ => ⟨v, ⟨visit, among, found⟩, isList⟩,
    fun ⟨v, ⟨visit, among, found⟩, isList⟩ => ⟨visit, among, v, found, isList⟩⟩

theorem mem_tracesOf_uncounted : (path, .uncounted) ∈ tracesOf limit documents ↔
    ∃ v ∈ (ofDocuments limit documents).valuesAt path, v.isMap = true := by
  simp only [tracesOf_eq, List.mem_map, Visit.trace_eq_uncounted_iff, valuesAt_ofDocuments,
    List.mem_filterMap]
  exact ⟨fun ⟨visit, among, v, found, isMap⟩ => ⟨v, ⟨visit, among, found⟩, isMap⟩,
    fun ⟨v, ⟨visit, among, found⟩, isMap⟩ => ⟨visit, among, v, found, isMap⟩⟩

theorem mem_tracesOf_map {row : List String} : (path, .map row) ∈ tracesOf limit documents ↔
    ∃ keys ∈ (ofDocuments limit documents).keySetsAt path, ascending keys = row := by
  simp only [tracesOf_eq, List.mem_map, Visit.trace_eq_map_iff, keySetsAt_ofDocuments,
    List.mem_filterMap]
  exact ⟨fun ⟨visit, among, keys, found, same⟩ => ⟨keys, ⟨visit, among, found⟩, same⟩,
    fun ⟨keys, ⟨visit, among, found⟩, same⟩ => ⟨visit, among, keys, found, same⟩⟩

theorem mem_paths_iff_trace : path ∈ (ofDocuments limit documents).paths ↔
    ∃ trace ∈ tracesOf limit documents, trace.1 = path := by
  simp [mem_paths_iff_visit, tracesOf_eq, Visit.fst_trace]

/-- Documents with the traces of others, some of which may be copied, have samples that match. -/
theorem matches_of_perm {copies : List (Path × Trace)}
    (perm : (tracesOf limit documents').Perm (tracesOf limit documents ++ copies))
    (copied : ∀ trace ∈ copies, trace ∈ tracesOf limit documents ∧
      ∀ v, trace.2 = .leaf v → v.Steady) :
    (ofDocuments limit documents).Matches (ofDocuments limit documents') := by
  have same (trace : Path × Trace) :
      trace ∈ tracesOf limit documents ↔ trace ∈ tracesOf limit documents' := by
    rw [perm.mem_iff, List.mem_append]
    exact ⟨.inl, fun either => either.elim id fun copy => (copied trace copy).1⟩
  refine ⟨fun path => ?_, fun path => ?_, fun path => ?_, fun path row => ?_, fun path => ?_⟩
  · simp only [mem_paths_iff_trace, same]
  · rw [← mem_tracesOf_list, ← mem_tracesOf_list, same]
  · rw [← mem_tracesOf_uncounted, ← mem_tracesOf_uncounted, same]
  · rw [← mem_tracesOf_map, ← mem_tracesOf_map, same]
  · refine ⟨copies.filterMap (leafUnder? path), ?_, fun v member => ?_⟩
    · rw [leavesAt_ofDocuments, leavesAt_ofDocuments, ← List.filterMap_append]
      exact perm.filterMap _
    · obtain ⟨trace, among, found⟩ := List.mem_filterMap.mp member
      obtain ⟨there, steady⟩ := copied trace among
      rw [leavesAt_ofDocuments]
      refine ⟨List.mem_filterMap.mpr ⟨trace, there, found⟩, steady v ?_⟩
      unfold leafUnder? at found
      split at found
      · split at found
        · cases found
          assumption
        · contradiction
      · contradiction

/-- A leaf that documents leave a trace of is one that they hold. -/
theorem holds_of_trace {v : Value} (member : (path, .leaf v) ∈ tracesOf limit documents) :
    ∃ document ∈ documents, ∃ concrete, document.Holds concrete v ∧ v.isBare = true := by
  have leaf : v ∈ (ofDocuments limit documents).leavesAt path := by
    rw [leavesAt_ofDocuments]
    exact List.mem_filterMap.mpr ⟨_, member, by simp [leafUnder?]⟩
  obtain ⟨seen, bare⟩ := List.mem_filter.mp leaf
  obtain ⟨document, among, concrete, holds, -⟩ := mem_valuesAt_ofDocuments.mp seen
  exact ⟨document, among, concrete, holds, bare⟩

/-- Documents that differ from others in order and in copies have samples that match. -/
theorem matches_of_reorders {copies : List Value}
    (copied : ∀ document ∈ copies, document ∈ documents ∧ document.LeavesSteady)
    (reordered : Reorders (documents ++ copies) documents') :
    (ofDocuments limit documents).Matches (ofDocuments limit documents') := by
  have whole : tracesOf limit (documents ++ copies) =
      tracesOf limit documents ++ tracesOf limit copies := List.flatMap_append
  refine matches_of_perm (whole ▸ (tracesOf_perm reordered).symm) fun trace member => ⟨?_, ?_⟩
  · obtain ⟨document, among, traced⟩ := List.mem_flatMap.mp member
    exact List.mem_flatMap.mpr ⟨document, (copied document among).1, traced⟩
  · obtain ⟨path, trace⟩ := trace
    rintro v rfl
    obtain ⟨document, among, concrete, holds, bare⟩ := holds_of_trace member
    exact (copied document among).2 concrete v holds bare

end Samples
end SchemaInference
