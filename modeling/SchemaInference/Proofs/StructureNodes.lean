import SchemaInference.Proofs.Preorder
import SchemaInference.Proofs.Refusals

/-! The nodes of a structure. A structure that is inferred stands for the root position, and what is
reached in it through elements and children stands for the position at the end of the way: it is
what was made of that position alone, marked as optional if some map on the way lacks its key. -/
namespace SchemaInference

namespace Structure

/-- The shapes that a position takes, marks apart: those of a mix, or one alone. -/
def shapes : Structure → List Structure
  | .mixed _ options => options.map (withFlags {})
  | s => [s.withFlags {}]

/-- What a structure has at a flat path. The way leads through elements of arrays and children of
objects. -/
inductive At : Structure → Path → Structure → Prop where
  | here (s : Structure) : At s [] s
  | element {s element node : Structure} {depth : Int} {tags : TagSet} {path : Path}
      (array : .array {} (some element) depth tags ∈ s.shapes) (below : At element path node) :
      At s (.wildcard :: path) node
  | child {s child node : Structure} {children : List (String × Structure)} {name : String}
      {path : Path} (object : .object {} children ∈ s.shapes) (field : (name, child) ∈ children)
      (below : At child path node) : At s (.key name :: path) node

theorem At.trans {s middle node : Structure} {path below : Path} (first : s.At path middle)
    (second : middle.At below node) : s.At (path ++ below) node := by
  induction first with
  | here => exact second
  | element array _ ih => exact .element array (ih second)
  | child object field _ ih => exact .child object field (ih second)

@[simp] theorem shapes_withFlags (flags : Flags) (s : Structure) :
    (s.withFlags flags).shapes = s.shapes := by
  cases s <;> rfl

@[simp] theorem shapes_makeOptional (s : Structure) : s.makeOptional.shapes = s.shapes :=
  shapes_withFlags _ s

@[simp] theorem shapes_setNullable (nullable : Bool) (s : Structure) :
    (s.setNullable nullable).shapes = s.shapes :=
  shapes_withFlags _ s

theorem withFlags_of_plain {s : Structure} (plain : s.flags = {}) : s.withFlags {} = s := by
  cases s <;> (obtain rfl := plain; rfl)

/-- Options without marks are the shapes of a position that takes them. Without any, nothing but
null was seen there. -/
theorem shapes_ofOptions {options : List Structure} (plain : ∀ option ∈ options, option.flags = {})
    (single : ∀ option ∈ options, option.shapes = [option]) (nullable : Bool) :
    (ofOptions nullable options).shapes =
      if options = [] then [.primitive {} "null"] else options := by
  match options with
  | [] => rfl
  | [only] =>
    rw [if_neg (List.cons_ne_nil _ _), ofOptions, shapes_setNullable]
    exact single only List.mem_cons_self
  | first :: second :: rest =>
    show (first :: second :: rest).map (withFlags {}) = _
    rw [if_neg (List.cons_ne_nil _ _)]
    refine (List.map_congr_left fun option among => ?_).trans (List.map_id _)
    exact withFlags_of_plain (plain option among)

end Structure

namespace PathTree
variable {t : PathTree} {c : Config} {n : PathNode}

theorem shapes_of_mem_options {levels : Nat} {option : Structure}
    (member : option ∈ t.options c levels n) : option.shapes = [option] := by
  rcases mem_options member with
    ⟨_, rfl⟩ | ⟨_, _, _, rfl⟩ | ⟨_, _, _, rfl⟩ | ⟨_, rfl⟩ <;> rfl

end PathTree

namespace Samples
variable {s : Samples} {c : Config} {path : Path} {n : PathNode}

/-- The shape of the position at a path, as its parent has it. -/
def shapeAt (s : Samples) (c : Config) (path : Path) : Structure :=
  let shape := (PathTree.ofSamples s).structureAt c (c.maxDepth + 1 - path.length) path
  if s.lacksLast path then shape.makeOptional else shape

/-- The options of a position, by the shapes one step below. -/
def optionsAt (s : Samples) (c : Config) (path : Path) (n : PathNode) : List Structure :=
  n.scalarOption ++
    (if n.lists.isEmpty then []
      else [.array {} (n.element?.map (s.shapeAt c)) n.arrayDepth n.itemTags]) ++
    if n.keySets.isEmpty then []
    else [((PathTree.ofSamples s).record? c n).getD
      (.object {} (n.names.map fun name => (name, s.shapeAt c (path ++ [.key name]))))]

/-- The options of a position are one for its scalars, one for its lists, and a record or an object
for its maps. -/
theorem mem_optionsAt_iff {shape : Structure} : shape ∈ s.optionsAt c path n ↔
    (n.scalars ≠ [] ∧
      shape = .primitive {} (Label.render (n.scalars.map Value.tag) none false false)) ∨
    (n.lists ≠ [] ∧
      shape = .array {} (n.element?.map (s.shapeAt c)) n.arrayDepth n.itemTags) ∨
    (n.keySets ≠ [] ∧
      ((∃ pattern stem label, (PathTree.ofSamples s).record? c n =
          some (.record {} pattern stem label) ∧ shape = .record {} pattern stem label) ∨
        ((PathTree.ofSamples s).record? c n = none ∧ shape = .object {}
          (n.names.map fun name => (name, s.shapeAt c (path ++ [.key name])))))) := by
  cases found : (PathTree.ofSamples s).record? c n with
  | none => simp [optionsAt, PathNode.scalarOption, found]
  | some record =>
    obtain ⟨pattern, stem, label, rfl⟩ := PathTree.record?_eq_some found
    simp [optionsAt, PathNode.scalarOption, found]

theorem lacksLast_wildcard (s : Samples) (path : Path) :
    s.lacksLast (path ++ [.wildcard]) = false := by
  simp [lacksLast, Segment.wildcard]

theorem NodeOf.lacksLast_key (node : s.NodeOf path n) (name : String) :
    s.lacksLast (path ++ [.key name]) = n.lacks name := by
  simp [lacksLast, PathNode.lacks, node.keySets]

theorem NodeOf.options_eq (node : s.NodeOf path n) (closed : s.Closed c.maxDepth)
    (shallow : path.length ≤ c.maxDepth) :
    (PathTree.ofSamples s).options c (c.maxDepth - path.length) n = s.optionsAt c path n := by
  have levels (step : Segment) :
      c.maxDepth + 1 - (path ++ [step]).length = c.maxDepth - path.length := by
    rw [List.length_append, List.length_singleton]
    omega
  have element : n.element?.map
      ((PathTree.ofSamples s).structureAt c (c.maxDepth - path.length)) =
        n.element?.map (s.shapeAt c) := by
    rw [node.element?]
    split
    · rw [Option.map_some, Option.map_some, shapeAt, levels, lacksLast_wildcard]
      rfl
    · rfl
  have children : PathTree.objectOption (.ofSamples s) c (c.maxDepth - path.length) n =
      .object {} (n.names.map fun name => (name, s.shapeAt c (path ++ [Segment.key name]))) := by
    rw [PathTree.objectOption, node.named_eq closed, List.map_map]
    congr 1
    refine List.map_congr_left fun name _ => ?_
    simp [Segment.text, shapeAt, node.lacksLast_key]
  rw [PathTree.options, PathTree.arrayOption, element, children, optionsAt]

/-- The shapes that a position takes are its options. -/
theorem NodeOf.shapes_shapeAt (node : s.NodeOf path n) (closed : s.Closed c.maxDepth)
    (shallow : path.length ≤ c.maxDepth) : (s.shapeAt c path).shapes =
      if s.optionsAt c path n = [] then [.primitive {} "null"] else s.optionsAt c path n := by
  have levels : c.maxDepth + 1 - path.length = c.maxDepth - path.length + 1 := by omega
  have marks : (s.shapeAt c path).shapes = ((PathTree.ofSamples s).structureAt c
      (c.maxDepth + 1 - path.length) path).shapes := by
    rw [shapeAt]
    split
    · exact Structure.shapes_makeOptional _
    · rfl
  rw [marks, levels, PathTree.structureAt_succ, node.found, ← node.options_eq closed shallow]
  exact Structure.shapes_ofOptions (fun _ => PathTree.flags_of_mem_options)
    (fun _ => PathTree.shapes_of_mem_options) n.nullable

theorem shapes_shapeAt_of_deep (deep : c.maxDepth < path.length) :
    (s.shapeAt c path).shapes = [.primitive {} "any"] := by
  have none : c.maxDepth + 1 - path.length = 0 := by omega
  rw [shapeAt, none]
  split <;> rfl

/-! ## The shapes of a position, one by one -/

section Shapes
variable (node : s.NodeOf path n) (closed : s.Closed c.maxDepth)
  (shallow : path.length ≤ c.maxDepth)
include node closed shallow

theorem NodeOf.primitive_mem_iff {label : String} :
    .primitive {} label ∈ (s.shapeAt c path).shapes ↔
      (n.scalars ≠ [] ∧ label = Label.render (n.scalars.map Value.tag) none false false) ∨
        (s.optionsAt c path n = [] ∧ label = "null") := by
  rw [node.shapes_shapeAt closed shallow]
  split
  · rename_i none
    have noScalars : n.scalars = [] := by
      by_contra some
      simp [optionsAt, PathNode.scalarOption, some] at none
    simp [none, noScalars]
  · rename_i filled
    rw [or_iff_left fun (empty : s.optionsAt c path n = [] ∧ _) => filled empty.1]
    rw [mem_optionsAt_iff]
    simp

/-- What is no primitive is a shape of a position exactly if it is among the options. -/
theorem NodeOf.mem_shapes_iff {shape : Structure} (other : ∀ label, shape ≠ .primitive {} label) :
    shape ∈ (s.shapeAt c path).shapes ↔ shape ∈ s.optionsAt c path n := by
  rw [node.shapes_shapeAt closed shallow]
  split
  · rename_i none
    simp [none, other]
  · rfl

theorem NodeOf.array_mem_iff {element : Option Structure} {depth : Int} {tags : TagSet} :
    .array {} element depth tags ∈ (s.shapeAt c path).shapes ↔
      n.lists ≠ [] ∧ element = n.element?.map (s.shapeAt c) ∧ depth = n.arrayDepth ∧
        tags = n.itemTags := by
  rw [node.mem_shapes_iff closed shallow (by simp), mem_optionsAt_iff]
  simp

theorem NodeOf.record_mem_iff {pattern : KeyPattern} {stem : Option String} {label : String} :
    .record {} pattern stem label ∈ (s.shapeAt c path).shapes ↔
      n.keySets ≠ [] ∧
        (PathTree.ofSamples s).record? c n = some (.record {} pattern stem label) := by
  rw [node.mem_shapes_iff closed shallow (by simp), mem_optionsAt_iff]
  simp

theorem NodeOf.object_mem_iff {children : List (String × Structure)} :
    .object {} children ∈ (s.shapeAt c path).shapes ↔
      n.keySets ≠ [] ∧ (PathTree.ofSamples s).record? c n = none ∧
        children = n.names.map fun name => (name, s.shapeAt c (path ++ [.key name])) := by
  rw [node.mem_shapes_iff closed shallow (by simp), mem_optionsAt_iff]
  simp

end Shapes

/-! ## Nodes -/

/-- What is reached in the structure of a position is the structure of the position to which the
way leads, and something was seen there. -/
theorem Closed.shapeAt_of_at (closed : s.Closed c.maxDepth) {below : Path} {node : Structure}
    (there : path ∈ s.paths) (reached : (s.shapeAt c path).At below node) :
    path ++ below ∈ s.paths ∧ node = s.shapeAt c (path ++ below) := by
  generalize shown : s.shapeAt c path = shape at reached
  induction reached generalizing path with
  | here shape => exact ⟨by simpa using there, by simp [shown]⟩
  | @element shape element node depth tags below array _ ih =>
    subst shown
    obtain ⟨n, isNode⟩ := closed.exists_node there
    by_cases shallow : path.length ≤ c.maxDepth
    · obtain ⟨-, found, -⟩ := (isNode.array_mem_iff closed shallow).mp array
      rw [isNode.element?] at found
      split at found
      · rename_i further
        obtain rfl : element = s.shapeAt c (path ++ [Segment.wildcard]) := by simpa using found
        simpa using ih further rfl
      · cases found
    · rw [shapes_shapeAt_of_deep (Nat.lt_of_not_le shallow)] at array
      simp at array
  | @child shape child node children name below object field _ ih =>
    subst shown
    obtain ⟨n, isNode⟩ := closed.exists_node there
    by_cases shallow : path.length ≤ c.maxDepth
    · obtain ⟨-, -, rfl⟩ := (isNode.object_mem_iff closed shallow).mp object
      obtain ⟨_, isName, same⟩ := List.mem_map.mp field
      cases same
      simpa using ih ((isNode.mem_names closed).mp isName) rfl
    · rw [shapes_shapeAt_of_deep (Nat.lt_of_not_le shallow)] at object
      simp at object

variable {documents : List Value}

/-- Whatever is not a leaf is reached: the maps above it make no record. -/
theorem at_of_not_isLeaf (closed : (samplesOf c documents).Closed c.maxDepth)
    (there : path ∈ (samplesOf c documents).paths)
    (notLeaf : ¬ (samplesOf c documents).IsLeaf path) :
    ((samplesOf c documents).shapeAt c []).At path ((samplesOf c documents).shapeAt c path) := by
  induction path using List.reverseRecOn with
  | nil => exact .here _
  | append_singleton front step ih =>
    have above := closed.parent front step there
    refine (ih above fun leaf => leaf.childless step there).trans ?_
    obtain ⟨n, node⟩ := closed.exists_node above
    have shallow : front.length ≤ c.maxDepth := by
      have bounded := (filedFrom_ofDocuments c.maxDepth documents).nothingBelow _ there
      simpa using bounded
    obtain ⟨inList, inMap⟩ := entered_above there
    rcases closed.last_step there with rfl | ⟨name, rfl⟩
    · obtain ⟨v, seen, isList⟩ := inList rfl
      have filled : n.lists ≠ [] :=
        List.ne_nil_of_mem (List.mem_filter.mpr ⟨node.values ▸ seen, isList⟩)
      have element : n.element? = some (front ++ [Segment.wildcard]) := by
        rw [node.element?, if_pos there]
      exact .element ((node.array_mem_iff closed shallow).mpr
        ⟨filled, by rw [element]; rfl, rfl, rfl⟩) (.here _)
    · have isName := (node.mem_names closed).mpr there
      have noRecord : (PathTree.ofSamples (samplesOf c documents)).record? c n = none := by
        refine Option.eq_none_iff_forall_not_mem.mpr fun record found => notLeaf ?_
        obtain ⟨_, -, leaves, -⟩ := (node.record?_eq_some_iff closed).mp found
        exact leaves name isName
      exact .child ((node.object_mem_iff closed shallow).mpr
        ⟨node.keySets ▸ inMap ⟨name, rfl⟩, noRecord, rfl⟩)
        (List.mem_map.mpr ⟨name, isName, rfl⟩) (.here _)

end Samples

end SchemaInference
