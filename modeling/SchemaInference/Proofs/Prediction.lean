import SchemaInference.Proofs.PositionSchemas
import SchemaInference.Proofs.Preorder
import SchemaInference.Proofs.Synthesis

/-! What a prediction returns: the schema of the root position. Documents that have nothing to look
into take a short cut, which leads to the same schema. -/
namespace SchemaInference

/-- The samples that a prediction looks at. -/
def samplesOf (c : Config) (documents : List Value) : Samples :=
  .ofDocuments c.maxDepth documents

namespace Samples
variable {c : Config} {documents : List Value} {n : PathNode}

theorem mem_valuesAt_root {v : Value} :
    v ∈ (samplesOf c documents).valuesAt [] ↔ v ∈ documents ∧ v.isMap = false := by
  rw [samplesOf, mem_valuesAt_ofDocuments]
  constructor
  · rintro ⟨document, member, concrete, holds, same, counts⟩
    obtain rfl : concrete = [] := List.map_eq_nil_iff.mp same
    cases holds
    exact ⟨member, counts.elim And.right (by simp)⟩
  · rintro ⟨member, notMap⟩
    exact ⟨v, member, [], .here v, rfl, .inl ⟨by simp, notMap⟩⟩

theorem mem_keySetsAt_root {keys : List String} :
    keys ∈ (samplesOf c documents).keySetsAt [] ↔ ∃ form entries,
      Value.map form entries ∈ documents ∧ keys = entries.map fun entry => entry.1.alone := by
  rw [samplesOf, mem_keySetsAt_ofDocuments]
  constructor
  · rintro ⟨document, member, concrete, form, entries, holds, same, -, rfl⟩
    obtain rfl : concrete = [] := List.map_eq_nil_iff.mp same
    cases holds
    exact ⟨form, entries, member, rfl⟩
  · rintro ⟨form, entries, member, rfl⟩
    exact ⟨_, member, [], form, entries, .here _, rfl, by simp, rfl⟩

theorem readable_schemaAt (s : Samples) (c : Config) (path : Path) : (s.schemaAt c path).Readable :=
  Schema.ofStructureAt_readable _

/-- The schema of samples is that of the root position, where nothing is refused. -/
theorem schema_eq {s : Samples} {stack : Stack} {schema : Schema}
    (returned : s.schema c stack = .ok schema) : schema = s.schemaAt c [] := by
  unfold Samples.schema analysis Samples.structureAt Analysis.build Schema.build at returned
  dsimp only at returned
  split at returned
  · contradiction
  · simp only [Except.map, bind, Except.bind] at returned
    split at returned
    · cases returned
      rw [c.levels_zero]
      rfl
    · contradiction

/-- The steps of writing the keys of documents as far as inference looks into them. -/
def writingSteps (c : Config) (documents : List Value) : List Step :=
  keyStepsOf c.maxDepth (placesOf documents)

/-- Inference collects the samples of the documents, unless a key cannot be written. -/
theorem collected_eq (c : Config) (documents : List Value) (stack : Stack) :
    collected c documents stack =
      match stack.writing.refusal? (writingSteps c documents) with
      | some cause => .error (.refused cause)
      | none => .ok (samplesOf c documents) := by
  rw [collected, collectAll_eq, writingSteps]
  cases stack.writing.refusal? (keyStepsOf c.maxDepth (placesOf documents)) <;> rfl

theorem eq_samplesOf_of_collected {s : Samples} {stack : Stack}
    (returned : collected c documents stack = .ok s) : s = samplesOf c documents := by
  rw [collected_eq] at returned
  split at returned <;> cases returned
  rfl

theorem no_scalars (node : (samplesOf c documents).NodeOf [] n)
    (plain : ∀ v ∈ documents, v.isNull = true ∨ v.isList = true ∨ v.isMap = true) :
    n.scalars = [] := by
  refine List.filter_eq_nil_iff.mpr fun v member => ?_
  rw [node.values, mem_valuesAt_root] at member
  rcases plain v member.1 with isNull | isList | isMap
  · simp [isNull]
  · simp [isList]
  · rw [isMap] at member
    simp at member

theorem no_lists (node : (samplesOf c documents).NodeOf [] n)
    (plain : ∀ v ∈ documents, v.isList = false) : n.lists = [] := by
  refine List.filter_eq_nil_iff.mpr fun v member => ?_
  rw [node.values, mem_valuesAt_root] at member
  simp [plain v member.1]

theorem no_keySets (node : (samplesOf c documents).NodeOf [] n)
    (plain : ∀ v ∈ documents, v.isMap = false) : n.keySets = [] := by
  refine List.eq_nil_iff_forall_not_mem.mpr fun keys member => ?_
  rw [node.keySets, mem_keySetsAt_root] at member
  obtain ⟨form, entries, member, -⟩ := member
  exact absurd (plain _ member) (by simp [Value.isMap])

/-- Documents without parts have no path below the root. -/
theorem no_paths_below {step : Segment}
    (plain : ∀ v ∈ documents, ∀ path w, v.Holds path w → path = []) :
    [step] ∉ (samplesOf c documents).paths := by
  intro there
  obtain ⟨document, member, concrete, w, holds, -, same⟩ := mem_paths_ofDocuments.mp there
  rw [plain document member concrete w holds] at same
  cases same

theorem not_nullable (node : (samplesOf c documents).NodeOf [] n)
    (plain : ∀ v ∈ documents, v.isNull = false) : n.nullable = false := by
  refine List.any_eq_false.mpr fun v member => ?_
  rw [node.values, mem_valuesAt_root] at member
  simp [plain v member.1]

/-! ## Documents that have nothing to look into -/

theorem eq_nil_of_holds_emptyList {form : ListForm} {path : Path} {w : Value}
    (holds : (Value.list form []).Holds path w) : path = [] := by
  cases holds with
  | here => rfl
  | item found => cases found

theorem eq_nil_of_holds_emptyMap {form : MapForm} {path : Path} {w : Value}
    (holds : (Value.map form []).Holds path w) : path = [] := by
  cases holds with
  | here => rfl
  | entry found => cases found

theorem schemaAt_of_nulls (filled : documents ≠ []) (null : ∀ v ∈ documents, v = .null) :
    (samplesOf c documents).schemaAt c [] = .null := by
  have closed : (samplesOf c documents).Closed c.maxDepth := closed_ofDocuments filled
  obtain ⟨n, node⟩ := closed.exists_node closed.root
  have scalars := no_scalars node fun v member => .inl (by rw [null v member]; rfl)
  have lists := no_lists node fun v member => by rw [null v member]; rfl
  have keySets := no_keySets node fun v member => by rw [null v member]; rfl
  rw [schemaAt_eq closed node closed.root (Nat.zero_le _)]
  simp [scalarMembers, listMembers, mapMembers_of_empty keySets, scalars, lists, sortTags,
    ascending, Schema.besideNull]

theorem schemaAt_of_emptyLists (filled : documents ≠ [])
    (empty : ∀ v ∈ documents, ∃ form, v = .list form []) :
    (samplesOf c documents).schemaAt c [] = .list .any := by
  have closed : (samplesOf c documents).Closed c.maxDepth := closed_ofDocuments filled
  obtain ⟨n, node⟩ := closed.exists_node closed.root
  have below : [Segment.wildcard] ∉ (samplesOf c documents).paths :=
    no_paths_below fun v member path w holds => by
      obtain ⟨form, rfl⟩ := empty v member
      exact eq_nil_of_holds_emptyList holds
  have scalars := no_scalars node fun v member => by
    obtain ⟨form, rfl⟩ := empty v member
    exact .inr (.inl rfl)
  have keySets := no_keySets node fun v member => by
    obtain ⟨form, rfl⟩ := empty v member
    rfl
  have nullable := not_nullable node fun v member => by
    obtain ⟨form, rfl⟩ := empty v member
    rfl
  have lists : n.lists ≠ [] := by
    obtain ⟨v, member⟩ := List.exists_mem_of_ne_nil documents filled
    obtain ⟨form, rfl⟩ := empty v member
    have seen : Value.list form [] ∈ n.values := by
      rw [node.values, mem_valuesAt_root]
      exact ⟨member, rfl⟩
    exact List.ne_nil_of_mem (List.mem_filter.mpr ⟨seen, rfl⟩)
  have element : n.element? = none := by
    rw [node.element?]
    exact if_neg below
  rw [schemaAt_eq closed node closed.root (Nat.zero_le _)]
  simp [scalarMembers, listMembers_of_filled lists, element, mapMembers_of_empty keySets, scalars,
    nullable, sortTags, ascending, Schema.besideNull, Schema.ofAlternatives]

theorem schemaAt_of_emptyMaps (filled : documents ≠ [])
    (empty : ∀ v ∈ documents, ∃ form, v = .map form []) :
    (samplesOf c documents).schemaAt c [] = .object [] c.strictObjects := by
  have closed : (samplesOf c documents).Closed c.maxDepth := closed_ofDocuments filled
  obtain ⟨n, node⟩ := closed.exists_node closed.root
  have below (name : String) : [Segment.key name] ∉ (samplesOf c documents).paths :=
    no_paths_below fun v member path w holds => by
      obtain ⟨form, rfl⟩ := empty v member
      exact eq_nil_of_holds_emptyMap holds
  have scalars := no_scalars node fun v member => by
    obtain ⟨form, rfl⟩ := empty v member
    exact .inr (.inr rfl)
  have lists := no_lists node fun v member => by
    obtain ⟨form, rfl⟩ := empty v member
    rfl
  have nullable := not_nullable node fun v member => by
    obtain ⟨form, rfl⟩ := empty v member
    rfl
  have keySets : n.keySets ≠ [] := by
    obtain ⟨v, member⟩ := List.exists_mem_of_ne_nil documents filled
    obtain ⟨form, rfl⟩ := empty v member
    have seen : [] ∈ n.keySets := by
      rw [node.keySets, mem_keySetsAt_root]
      exact ⟨form, [], member, rfl⟩
    exact List.ne_nil_of_mem seen
  have names : n.names = [] := by
    refine List.eq_nil_iff_forall_not_mem.mpr fun name member => ?_
    exact below name ((node.mem_names closed).mp member)
  have noRecord : (PathTree.ofSamples (samplesOf c documents)).record? c n = none := by
    have few : n.named.length < c.recordMinKeys := by
      rw [node.named_eq closed, names]
      exact c.recordMinKeys_pos
    rw [PathTree.record?, PathTree.recordPattern?, if_pos few]
  rw [schemaAt_eq closed node closed.root (Nat.zero_le _)]
  simp [scalarMembers, listMembers, lists, mapMembers_of_object keySets noRecord, fieldsAt, names,
    scalars, nullable, sortTags, ascending, Schema.besideNull, Schema.ofAlternatives]

end Samples

open Samples

/-- What the short cut found tells what the documents are, all of them: nulls, empty lists, or empty
maps. -/
theorem plainSchema?_eq_some {c : Config} {documents : List Value} {schema : Schema}
    (found : plainSchema? c documents = some schema) :
    (schema = .null ∧ ∀ v ∈ documents, v = .null) ∨
    (schema = .list .any ∧ ∀ v ∈ documents, ∃ form, v = .list form []) ∨
    (schema = .object [] c.strictObjects ∧ ∀ v ∈ documents, ∃ form, v = .map form []) := by
  unfold plainSchema? at found
  split at found
  · rename_i allNull
    cases found
    refine .inl ⟨rfl, fun v member => ?_⟩
    have isNull := List.all_eq_true.mp allNull v member
    cases v <;> first | rfl | cases isNull
  · split at found
    · rename_i allEmpty
      cases found
      refine .inr (.inl ⟨rfl, fun v member => ?_⟩)
      have isEmpty := List.all_eq_true.mp allEmpty v member
      cases v <;> simp [Value.items?] at isEmpty
      exact ⟨_, by rw [isEmpty]⟩
    · split at found
      · rename_i allEmpty
        cases found
        refine .inr (.inr ⟨rfl, fun v member => ?_⟩)
        have isEmpty := List.all_eq_true.mp allEmpty v member
        cases v <;> simp [Value.entries?] at isEmpty
        exact ⟨_, by rw [isEmpty]⟩
      · contradiction

/-- The short cut for documents that have nothing to look into saves work and changes nothing. -/
theorem plainSchema?_eq {c : Config} {documents : List Value} {schema : Schema}
    (filled : documents ≠ []) (found : plainSchema? c documents = some schema) :
    schema = (samplesOf c documents).schemaAt c [] := by
  obtain ⟨rfl, null⟩ | ⟨rfl, empty⟩ | ⟨rfl, empty⟩ := plainSchema?_eq_some found
  · exact (schemaAt_of_nulls filled null).symm
  · exact (schemaAt_of_emptyLists filled empty).symm
  · exact (schemaAt_of_emptyMaps filled empty).symm

/-- A prediction returns the schema of the root position. -/
theorem predict_eq {c : Config} {documents : List Value} {stack : Stack} {schema : Schema}
    (returned : predict c documents stack = .ok schema) :
    documents ≠ [] ∧ schema = (samplesOf c documents).schemaAt c [] := by
  unfold predict at returned
  split at returned
  · contradiction
  · rename_i filled
    have filled : documents ≠ [] := by simpa using filled
    split at returned
    · rename_i plain found
      cases returned
      exact ⟨filled, plainSchema?_eq filled found⟩
    · cases collecting : collected c documents stack with
      | error fault =>
        rw [collecting] at returned
        cases returned
      | ok s =>
        rw [collecting] at returned
        exact ⟨filled, eq_samplesOf_of_collected collecting ▸ schema_eq returned⟩

/-- The schema of documents all of whose keys can be written. -/
theorem predict_of_written {c : Config} {first : Value} {rest : List Value} {stack : Stack}
    (written : stack.writing.refusal? (writingSteps c (first :: rest)) = none) :
    predict c (first :: rest) stack =
      match plainSchema? c (first :: rest) with
      | some schema => .ok schema
      | none => (samplesOf c (first :: rest)).schema c stack := by
  rw [predict, if_neg (by simp), collected_eq, written]
  rfl

/-! ## Findings -/

/-- What is found out about documents of which nothing is refused. -/
def findingsOf (c : Config) (documents : List Value) : Analysis :=
  ⟨samplesOf c documents,
    (PathTree.ofSamples (samplesOf c documents)).structureAt c (c.maxDepth + 1) [],
    (samplesOf c documents).typePredictions c⟩

/-- The steps of telling the values of documents apart in the decisions on records. -/
def Samples.decidingSteps (c : Config) (documents : List Value) : List Step :=
  (PathTree.ofSamples (samplesOf c documents)).structureSteps c 0 (c.maxDepth + 1) []

/-- An analysis writes the keys and then tells values apart; if nothing is refused on the way, it
returns what is found. -/
theorem analyze_cons (c : Config) (first : Value) (rest : List Value) (stack : Stack) :
    analyze c (first :: rest) stack =
      match stack.writing.refusal? (writingSteps c (first :: rest)) with
      | some cause => .error (.refused cause)
      | none =>
        match stack.telling.refusal? (decidingSteps c (first :: rest)) with
        | some cause => .error (.refused cause)
        | none => .ok (findingsOf c (first :: rest)) := by
  rw [analyze, if_neg (by simp), collected_eq]
  cases stack.writing.refusal? (writingSteps c (first :: rest)) with
  | some cause => rfl
  | none =>
    show (samplesOf c (first :: rest)).analysis c stack = _
    rw [analysis, Samples.structureAt, c.levels_zero, decidingSteps]
    cases stack.telling.refusal? ((PathTree.ofSamples (samplesOf c (first :: rest))).structureSteps
      c 0 (c.maxDepth + 1) []) <;> rfl

/-- The findings of documents of which nothing is refused. -/
theorem analyze_of_unrefused {c : Config} {first : Value} {rest : List Value} {stack : Stack}
    (written : stack.writing.refusal? (writingSteps c (first :: rest)) = none)
    (told : stack.telling.refusal? (decidingSteps c (first :: rest)) = none) :
    analyze c (first :: rest) stack = .ok (findingsOf c (first :: rest)) := by
  rw [analyze_cons, written, told]

/-- An analysis returns what is found out about its documents. -/
theorem eq_findingsOf {c : Config} {documents : List Value} {stack : Stack} {findings : Analysis}
    (returned : analyze c documents stack = .ok findings) :
    documents ≠ [] ∧ findings = findingsOf c documents := by
  cases documents with
  | nil => cases returned
  | cons first rest =>
    rw [analyze_cons] at returned
    split at returned
    · cases returned
    · split at returned <;> cases returned
      exact ⟨List.cons_ne_nil first rest, rfl⟩

end SchemaInference
