import SchemaInference.Proofs.StructureNodes

/-! Structure and type predictions agree. One is grown from the tree of samples, the others are read
off the samples path by path, and neither looks at the other; but at every node of the structure the
prediction for its path says the same of null and absence, of lists and of the tags that were
seen. -/
namespace SchemaInference

/-- A structure and a prediction say the same of a position: whether null was seen and whether it
may be absent, whether there were lists, how deep and with what in them, and which tags there were
beside null. -/
structure Structure.Agrees (s : Structure) (p : TypePrediction) : Prop where
  nullable : s.flags.nullable = p.nullable
  optional : s.flags.optional = p.optional
  isArray : p.isArray = true ↔ ∃ element depth tags, .array {} element depth tags ∈ s.shapes
  array : ∀ element depth tags, .array {} element depth tags ∈ s.shapes →
    depth = p.arrayDepth ∧ tags = p.itemTags
  tags : ∀ tag, tag ∈ p.tags ↔
    (∃ label, .primitive {} label ∈ s.shapes ∧ tag ∈ Label.split label ∧ tag ≠ "null") ∨
    (tag = "array" ∧ ∃ element depth tags, .array {} element depth tags ∈ s.shapes) ∨
    (tag = "object" ∧ ((∃ pattern stem label, .record {} pattern stem label ∈ s.shapes) ∨
      ∃ children, .object {} children ∈ s.shapes))

theorem Structure.flags_ofOptions {options : List Structure}
    (plain : ∀ option ∈ options, option.flags = {}) (nullable : Bool) :
    (ofOptions nullable options).flags = { nullable := options.isEmpty || nullable } := by
  match options with
  | [] => rfl
  | [only] => simp [ofOptions, setNullable, plain only List.mem_cons_self]
  | first :: second :: rest => rfl

namespace PathNode
variable {n : PathNode}

/-- What is no list has no nesting. -/
theorem nestings_eq (n : PathNode) :
    n.nestings = n.values.filterMap fun v => v.items?.map Nesting.ofItems := by
  rw [nestings, lists, List.filterMap_filter]
  refine List.filterMap_congr fun v _ => ?_
  cases v <;> rfl

/-- Nestings without leaves have no tags. -/
theorem itemTags_eq (n : PathNode) : n.itemTags =
    .ofList ((n.nestings.filter fun nesting => !nesting.leaves.isEmpty).flatMap Nesting.tags) := by
  rw [itemTags]
  congr 1
  induction n.nestings with
  | nil => rfl
  | cons nesting rest ih =>
    rw [List.flatMap_cons, ih, List.filter_cons]
    split
    · rw [List.flatMap_cons]
    · rename_i noLeaves
      have empty : nesting.leaves = [] := by simpa using noLeaves
      simp [Nesting.tags, empty]

/-- The tags of the values at a node that are not null are those of its scalars, and that of lists
if there are any. -/
theorem mem_tags_iff {tag : String} :
    tag ∈ (n.values.filter fun v => !v.isNull).map Value.tag ↔
      tag ∈ n.scalars.map Value.tag ∨ tag = "array" ∧ n.lists ≠ [] := by
  have isArray {v : Value} (isList : v.isList = true) : v.tag = "array" := by
    rw [Value.tag, Value.kind_eq_array_iff.mpr isList]
    rfl
  constructor
  · intro tagged
    obtain ⟨v, member, rfl⟩ := List.mem_map.mp tagged
    obtain ⟨seen, notNull⟩ := List.mem_filter.mp member
    cases isList : v.isList with
    | true =>
      exact .inr ⟨isArray isList, List.ne_nil_of_mem (List.mem_filter.mpr ⟨seen, isList⟩)⟩
    | false =>
      refine .inl (List.mem_map.mpr ⟨v, List.mem_filter.mpr ⟨seen, ?_⟩, rfl⟩)
      rw [notNull, isList]
      rfl
  · rintro (scalar | ⟨rfl, filled⟩)
    · obtain ⟨v, member, rfl⟩ := List.mem_map.mp scalar
      obtain ⟨seen, apart⟩ := List.mem_filter.mp member
      exact List.mem_map.mpr
        ⟨v, List.mem_filter.mpr ⟨seen, (Bool.and_eq_true_iff.mp apart).1⟩, rfl⟩
    · obtain ⟨v, member⟩ := List.exists_mem_of_ne_nil _ filled
      obtain ⟨seen, isList⟩ := List.mem_filter.mp member
      have notNull : (!v.isNull) = true := by cases v <;> first | rfl | cases isList
      exact List.mem_map.mpr ⟨v, List.mem_filter.mpr ⟨seen, notNull⟩, isArray isList⟩

end PathNode

namespace Samples
open Schema
variable {s : Samples} {c : Config} {path : Path} {n : PathNode}

theorem NodeOf.flags_shapeAt (node : s.NodeOf path n) (closed : s.Closed c.maxDepth)
    (there : path ∈ s.paths) (shallow : path.length ≤ c.maxDepth) :
    (s.shapeAt c path).flags = ⟨n.nullable, s.lacksLast path⟩ := by
  have levels : c.maxDepth + 1 - path.length = c.maxDepth - path.length + 1 := by omega
  have own : ((PathTree.ofSamples s).structureAt c (c.maxDepth + 1 - path.length) path).flags =
      { nullable := n.nullable } := by
    rw [levels, PathTree.structureAt_succ, node.found]
    dsimp only
    rw [Structure.flags_ofOptions fun _ => PathTree.flags_of_mem_options,
      node.options_eq closed shallow]
    by_cases none : s.optionsAt c path n = []
    · obtain ⟨noScalars, noLists, noKeySets⟩ :
          n.scalars = [] ∧ n.lists = [] ∧ n.keySets = [] := by
        simpa [optionsAt, PathNode.scalarOption] using none
      simp [none, node.nullable_of_empty closed there noScalars noLists noKeySets]
    · simp [none]
  rw [shapeAt]
  split
  · rename_i lacks
    rw [Schema.flags_makeOptional, own, lacks]
  · rename_i holds
    rw [own, Bool.eq_false_iff.mpr holds]

section Agreement
variable (node : s.NodeOf path n) (closed : s.Closed c.maxDepth)
  (shallow : path.length ≤ c.maxDepth)
include node closed shallow

theorem NodeOf.has_array_iff :
    (∃ element depth tags, .array {} element depth tags ∈ (s.shapeAt c path).shapes) ↔
      n.lists ≠ [] := by
  simp [node.array_mem_iff closed shallow]

theorem NodeOf.has_map_iff :
    ((∃ pattern stem label, .record {} pattern stem label ∈ (s.shapeAt c path).shapes) ∨
      ∃ children, .object {} children ∈ (s.shapeAt c path).shapes) ↔ n.keySets ≠ [] := by
  simp only [node.record_mem_iff closed shallow, node.object_mem_iff closed shallow]
  constructor
  · rintro (⟨_, _, _, filled, -⟩ | ⟨_, filled, -⟩) <;> exact filled
  · intro filled
    cases found : (PathTree.ofSamples s).record? c n with
    | none => exact .inr ⟨_, filled, rfl, rfl⟩
    | some record =>
      obtain ⟨pattern, stem, label, rfl⟩ := PathTree.record?_eq_some found
      exact .inl ⟨pattern, stem, label, filled, rfl⟩

theorem NodeOf.has_scalar_iff {tag : String} :
    (∃ label, .primitive {} label ∈ (s.shapeAt c path).shapes ∧ tag ∈ Label.split label ∧
      tag ≠ "null") ↔ tag ∈ n.scalars.map Value.tag := by
  have read (filled : n.scalars ≠ []) :=
    split_render (by simpa using filled) (ofValues_scalars n)
  simp only [node.primitive_mem_iff closed shallow]
  constructor
  · rintro ⟨_, ⟨filled, rfl⟩ | ⟨-, rfl⟩, member, notNull⟩
    · rwa [read filled, mem_sortTags] at member
    · have only : Label.split "null" = ["null"] := by decide +kernel
      rw [only, List.mem_singleton] at member
      exact absurd member notNull
  · intro tagged
    have filled : n.scalars ≠ [] := by
      rintro none
      simp [none] at tagged
    refine ⟨_, .inl ⟨filled, rfl⟩, ?_, (proper_of_ofValues (ofValues_scalars n) tag tagged).1⟩
    rw [read filled]
    exact mem_sortTags.mpr tagged

/-- What the tree makes of a position agrees with what is predicted of it. -/
theorem NodeOf.agrees (there : path ∈ s.paths)
    (maps : s.hasMap path = true ↔ s.keySetsAt path ≠ []) :
    (s.shapeAt c path).Agrees (.ofValues c (s.lacksLast path) (s.hasMap path) (c.maxDepth + 1)
      (s.valuesAt path)) := by
  have flags := node.flags_shapeAt closed there shallow
  have lists := node.has_array_iff closed shallow
  rw [← node.values]
  refine ⟨by rw [flags]; rfl, by rw [flags]; rfl, ?_, ?_, ?_⟩
  · rw [lists]
    simp [TypePrediction.ofValues, PathNode.lists]
  · intro element depth tags array
    obtain ⟨-, -, rfl, rfl⟩ := (node.array_mem_iff closed shallow).mp array
    rw [PathNode.arrayDepth, PathNode.itemTags_eq, PathNode.nestings_eq]
    exact ⟨rfl, rfl⟩
  · intro tag
    rw [node.has_scalar_iff closed shallow, lists, node.has_map_iff closed shallow, node.keySets,
      ← maps, ← or_assoc, ← PathNode.mem_tags_iff, TypePrediction.ofValues, TagSet.mem_ofList]
    cases s.hasMap path <;> simp [or_comm]

end Agreement

end Samples

open Samples

/-- Wherever the structure of some documents has a node, down to the greatest depth, the type
prediction for its path says the same of it. -/
theorem structure_agrees_with_predictions {c : Config} {documents : List Value}
    {findings : Analysis} (returned : analyze c documents = .ok findings) {path : Path}
    {node : Structure} (reached : findings.shape.At path node)
    (shallow : path.length ≤ c.maxDepth) :
    ∃ prediction, Assoc.find? path findings.predictions = some prediction ∧
      node.Agrees prediction := by
  obtain ⟨filled, rfl⟩ := eq_findingsOf returned
  have closed : (samplesOf c documents).Closed c.maxDepth := closed_ofDocuments filled
  obtain ⟨there, rfl⟩ := closed.shapeAt_of_at closed.root reached
  obtain ⟨n, isNode⟩ := closed.exists_node there
  refine ⟨_, Assoc.find?_map_of_mem _ there, isNode.agrees closed shallow there ?_⟩
  have filed := filedFrom_ofDocuments c.maxDepth documents
  rw [samplesOf, filed.hasMap, filed.keySets]
  simp

/-- A field that one of two maps lacks, and under which a list was seen. -/
theorem predictions_of_optional_list :
    let documents : List Value := [.map .plain [(.text "a", .list .list [])], .map .plain []]
    ∃ findings node prediction, analyze default documents = .ok findings ∧
      findings.shape.At [.key "a"] node ∧ node.flags = ⟨false, true⟩ ∧
      Assoc.find? [.key "a"] findings.predictions = some prediction ∧ node.Agrees prediction := by
  intro documents
  have returned : analyze default documents = .ok (findingsOf default documents) :=
    analyze_of_unrefused rfl rfl
  obtain ⟨node, reached, flags⟩ : ∃ node,
      (findingsOf default documents).shape.At [.key "a"] node ∧
        node.flags = ⟨false, true⟩ :=
    ⟨_, .child (.head _) (.head _) (.here _), rfl⟩
  obtain ⟨prediction, found, agrees⟩ :=
    structure_agrees_with_predictions returned reached (by decide)
  exact ⟨_, node, prediction, returned, reached, flags, found, agrees⟩

end SchemaInference
