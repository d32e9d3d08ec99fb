import SchemaInference.Proofs.Nestings
import SchemaInference.Proofs.PassAgreement

/-! Arrays and their elements agree. How deep the lists at a position go and which tags stand in
them is measured on the lists as a whole; the element is grown from what was seen one step further
down, where each item lies by itself. At every array of a structure the one says what the other
does: the array is one level deeper than the arrays of its element, and has the tags of all its
element's shapes. -/
namespace SchemaInference

/-- An array of this depth and with these tags in it measures up to its element. -/
structure Structure.Measures (element : Structure) (depth : Int) (tags : TagSet) : Prop where
  nested : ∀ element' depth' tags', .array {} element' depth' tags' ∈ element.shapes →
    depth = 1 + depth'
  flat : (¬ ∃ element' depth' tags', .array {} element' depth' tags' ∈ element.shapes) → depth = 1
  tags : ∀ tag, tag ∈ tags ↔
    (∃ label, .primitive {} label ∈ element.shapes ∧ tag ∈ Label.split label ∧ tag ≠ "null") ∨
    (tag = "null" ∧ element.flags.nullable = true) ∨
    (tag = "object" ∧ ((∃ pattern stem label, .record {} pattern stem label ∈ element.shapes) ∨
      ∃ children, .object {} children ∈ element.shapes)) ∨
    ∃ element' depth' tags', .array {} element' depth' tags' ∈ element.shapes ∧ tag ∈ tags'

namespace PathNode
variable {n : PathNode}

theorem mem_nestings {s : Nesting} :
    s ∈ n.nestings ↔ ∃ form items, .list form items ∈ n.values ∧ Nesting.ofItems items = s := by
  rw [nestings_eq, List.mem_filterMap]
  constructor
  · rintro ⟨v, seen, found⟩
    cases v with
    | list form items => exact ⟨form, items, seen, Option.some.inj found⟩
    | _ => cases found
  · rintro ⟨form, items, seen, rfl⟩
    exact ⟨_, seen, rfl⟩

/-- Lists are as deep as the deepest of the values. -/
theorem arrayDepth_le_iff {depth : Nat} :
    n.arrayDepth ≤ depth ↔ ∀ v ∈ n.values, v.listDepth ≤ depth := by
  rw [arrayDepth, Nesting.foldl_depth_le_iff]
  constructor
  · rintro ⟨-, bounded⟩ v seen
    cases v with
    | list form items =>
      have found := bounded _ (mem_nestings.mpr ⟨form, items, seen, rfl⟩)
      rwa [Nesting.ofItems_eq] at found
    | _ => exact Nat.zero_le _
  · intro bounded
    refine ⟨Nat.zero_le _, fun s member => ?_⟩
    obtain ⟨form, items, seen, rfl⟩ := mem_nestings.mp member
    rw [Nesting.ofItems_eq]
    exact bounded _ seen

theorem arrayDepth_pos (filled : n.lists ≠ []) : 0 < n.arrayDepth := by
  obtain ⟨v, member⟩ := List.exists_mem_of_ne_nil _ filled
  obtain ⟨seen, isList⟩ := List.mem_filter.mp member
  have deep := arrayDepth_le_iff.mp (Nat.le_refl n.arrayDepth) v seen
  cases v with
  | list form items => exact Nat.lt_of_lt_of_le (Nat.succ_pos _) deep
  | _ => cases isList

theorem mem_itemTags_iff {tag : String} : tag ∈ n.itemTags ↔
    ∃ v ∈ n.values, v.isList = true ∧ ∃ leaf ∈ v.bottom, leaf.tag = tag := by
  rw [itemTags, TagSet.mem_ofList, List.mem_flatMap]
  simp only [Nesting.tags, List.mem_map]
  constructor
  · rintro ⟨s, member, leaf, inside, same⟩
    obtain ⟨form, items, seen, rfl⟩ := mem_nestings.mp member
    rw [Nesting.ofItems_eq] at inside
    exact ⟨.list form items, seen, rfl, leaf, inside, same⟩
  · rintro ⟨v, seen, isList, leaf, inside, same⟩
    cases v with
    | list form items =>
      refine ⟨_, mem_nestings.mpr ⟨form, items, seen, rfl⟩, leaf, ?_, same⟩
      rw [Nesting.ofItems_eq]
      exact inside
    | _ => cases isList

/-- The tags at the bottom of all values at a node: those of scalars, that of null, and those that
stand in lists. -/
theorem bottom_tags_iff {tag : String} :
    (∃ v ∈ n.values, ∃ leaf ∈ v.bottom, leaf.tag = tag) ↔
      tag ∈ n.scalars.map Value.tag ∨ (tag = "null" ∧ n.nullable = true) ∨ tag ∈ n.itemTags := by
  constructor
  · rintro ⟨v, seen, leaf, inside, same⟩
    cases isList : v.isList with
    | true => exact .inr (.inr (mem_itemTags_iff.mpr ⟨v, seen, isList, leaf, inside, same⟩))
    | false =>
      rw [Value.bottom_of_not_list isList, List.mem_singleton] at inside
      subst inside
      cases isNull : leaf.isNull with
      | true =>
        refine .inr (.inl ⟨?_, List.any_eq_true.mpr ⟨leaf, seen, isNull⟩⟩)
        cases leaf <;> first | exact same.symm | cases isNull
      | false =>
        refine .inl (List.mem_map.mpr ⟨leaf, List.mem_filter.mpr ⟨seen, ?_⟩, same⟩)
        simp [isNull, isList]
  · rintro (scalar | ⟨rfl, nullable⟩ | nested)
    · obtain ⟨v, member, same⟩ := List.mem_map.mp scalar
      obtain ⟨seen, apart⟩ := List.mem_filter.mp member
      have notList : v.isList = false := by simpa using (Bool.and_eq_true_iff.mp apart).2
      refine ⟨v, seen, v, ?_, same⟩
      rw [Value.bottom_of_not_list notList]
      exact List.mem_singleton_self v
    · obtain ⟨v, seen, isNull⟩ := List.any_eq_true.mp nullable
      cases v with
      | null => exact ⟨.null, seen, .null, List.mem_singleton_self _, rfl⟩
      | _ => cases isNull
    · obtain ⟨v, seen, -, leaf, inside, same⟩ := mem_itemTags_iff.mp nested
      exact ⟨v, seen, leaf, inside, same⟩

end PathNode

namespace Samples
variable {s : Samples} {c : Config} {documents : List Value} {path : Path} {n e : PathNode}
  {w : Value}

/-! ## Items -/

/-- A value stands in a list that was seen at a path. -/
def ItemAt (s : Samples) (path : Path) (w : Value) : Prop :=
  ∃ form items, .list form items ∈ s.valuesAt path ∧ w ∈ items

/-- The items of lists are what the documents hold one step further. -/
theorem itemAt_iff (shallow : path.length ≤ c.maxDepth) :
    (samplesOf c documents).ItemAt path w ↔ ∃ document ∈ documents, ∃ concrete,
      document.Holds concrete w ∧ concrete.flat = path ++ [.wildcard] := by
  constructor
  · rintro ⟨form, items, seen, among⟩
    obtain ⟨document, member, concrete, holds, rfl, -⟩ := mem_valuesAt_ofDocuments.mp seen
    obtain ⟨i, found⟩ := List.mem_iff_getElem?.mp among
    have inside : Value.Holds (.list form items) [.item i] w := .item found (.here w)
    exact ⟨document, member, _, holds.trans inside, Path.flat_append ..⟩
  · rintro ⟨document, member, concrete, holds, same⟩
    obtain ⟨front, last, rfl, rfl, lastSame⟩ := Path.eq_concat_of_flat same
    obtain ⟨u, above, inside⟩ := holds.parent
    rw [Path.length_flat] at shallow
    cases inside with
    | @item form items i item _ _ found below =>
      obtain rfl := below.eq_of_nil
      exact ⟨form, items, mem_valuesAt_ofDocuments.mpr
        ⟨document, member, front, above, rfl, .inl ⟨shallow, rfl⟩⟩, List.mem_of_getElem? found⟩
    | entry => cases lastSame

theorem wildcard_mem_paths_iff (shallow : path.length ≤ c.maxDepth) :
    path ++ [.wildcard] ∈ (samplesOf c documents).paths ↔
      ∃ w, (samplesOf c documents).ItemAt path w := by
  simp only [itemAt_iff shallow]
  rw [samplesOf, mem_paths_ofDocuments]
  constructor
  · rintro ⟨document, member, concrete, w, holds, -, same⟩
    exact ⟨w, document, member, concrete, holds, same⟩
  · rintro ⟨w, document, member, concrete, holds, same⟩
    refine ⟨document, member, concrete, w, holds, ?_, same⟩
    rw [Path.length_of_flat_concat same]
    exact Nat.succ_le_succ shallow

/-- The tags in lists are those at the bottom of their items. -/
theorem NodeOf.mem_itemTags_iff_item (node : s.NodeOf path n) {tag : String} :
    tag ∈ n.itemTags ↔ ∃ w, s.ItemAt path w ∧ ∃ leaf ∈ w.bottom, leaf.tag = tag := by
  rw [PathNode.mem_itemTags_iff, node.values]
  constructor
  · rintro ⟨v, seen, isList, leaf, inside, same⟩
    cases v with
    | list form items =>
      rw [Value.bottom, Value.itemsBottom_eq] at inside
      obtain ⟨w, among, inside⟩ := List.mem_flatMap.mp inside
      exact ⟨w, ⟨form, items, seen, among⟩, leaf, inside, same⟩
    | _ => cases isList
  · rintro ⟨w, ⟨form, items, seen, among⟩, leaf, inside, same⟩
    refine ⟨.list form items, seen, rfl, leaf, ?_, same⟩
    rw [Value.bottom, Value.itemsBottom_eq]
    exact List.mem_flatMap.mpr ⟨w, among, inside⟩

theorem NodeOf.tag_in_array_iff (node : s.NodeOf path n) (closed : s.Closed c.maxDepth)
    (shallow : path.length ≤ c.maxDepth) {tag : String} :
    (∃ element depth tags, .array {} element depth tags ∈ (s.shapeAt c path).shapes ∧
      tag ∈ tags) ↔ tag ∈ n.itemTags := by
  simp only [node.array_mem_iff closed shallow]
  constructor
  · rintro ⟨_, _, _, ⟨-, -, -, rfl⟩, member⟩
    exact member
  · intro member
    obtain ⟨v, seen, isList, -⟩ := PathNode.mem_itemTags_iff.mp member
    have filled : n.lists ≠ [] := List.ne_nil_of_mem (List.mem_filter.mpr ⟨seen, isList⟩)
    exact ⟨_, _, _, ⟨filled, rfl, rfl, rfl⟩, member⟩

section Shallow
variable (shallow : path.length < c.maxDepth)
include shallow

/-- What is filed one step further are the items that are no maps. -/
theorem mem_valuesAt_wildcard :
    w ∈ (samplesOf c documents).valuesAt (path ++ [.wildcard]) ↔
      (samplesOf c documents).ItemAt path w ∧ w.isMap = false := by
  rw [itemAt_iff shallow.le, samplesOf, mem_valuesAt_ofDocuments]
  constructor
  · rintro ⟨document, member, concrete, holds, same, ⟨-, notMap⟩ | deep⟩
    · exact ⟨⟨document, member, concrete, holds, same⟩, notMap⟩
    · rw [Path.length_of_flat_concat same] at deep
      omega
  · rintro ⟨⟨document, member, concrete, holds, same⟩, notMap⟩
    refine ⟨document, member, concrete, holds, same, .inl ⟨?_, notMap⟩⟩
    rw [Path.length_of_flat_concat same]
    exact shallow

/-- Key sets are filed there if some item is a map. -/
theorem keySetsAt_wildcard :
    (samplesOf c documents).keySetsAt (path ++ [.wildcard]) ≠ [] ↔
      ∃ w, (samplesOf c documents).ItemAt path w ∧ w.isMap = true := by
  constructor
  · intro filled
    obtain ⟨keys, member⟩ := List.exists_mem_of_ne_nil _ filled
    obtain ⟨document, among, concrete, form, entries, holds, same, -⟩ :=
      mem_keySetsAt_ofDocuments.mp member
    exact ⟨_, (itemAt_iff shallow.le).mpr ⟨document, among, concrete, holds, same⟩, rfl⟩
  · rintro ⟨w, isItem, isMap⟩
    obtain ⟨document, among, concrete, holds, same⟩ := (itemAt_iff shallow.le).mp isItem
    cases w with
    | map form entries =>
      refine List.ne_nil_of_mem (mem_keySetsAt_ofDocuments.mpr
        ⟨document, among, concrete, form, entries, holds, same, ?_, rfl⟩)
      rw [Path.length_of_flat_concat same]
      exact shallow
    | _ => cases isMap

/-! ## A node and the node of its element -/

section Element
variable (node : (samplesOf c documents).NodeOf path n)
  (below : (samplesOf c documents).NodeOf (path ++ [.wildcard]) e)
include node below

/-- Lists are one level deeper than the lists among their items. -/
theorem NodeOf.arrayDepth_eq (filled : n.lists ≠ []) : n.arrayDepth = e.arrayDepth + 1 := by
  -- Both depths are greatest values, so they are compared by what they are at most.
  have levels (depth : Nat) : n.arrayDepth ≤ depth + 1 ↔ e.arrayDepth ≤ depth := by
    rw [PathNode.arrayDepth_le_iff, PathNode.arrayDepth_le_iff, node.values, below.values]
    constructor
    · intro bounded w seen
      obtain ⟨⟨form, items, listed, among⟩, -⟩ := (mem_valuesAt_wildcard shallow).mp seen
      have deep : Value.itemsDepth items + 1 ≤ depth + 1 := bounded _ listed
      exact Value.itemsDepth_le_iff.mp (Nat.le_of_succ_le_succ deep) w among
    · intro bounded v seen
      cases v with
      | list form items =>
        apply Nat.succ_le_succ
        apply Value.itemsDepth_le_iff.mpr
        intro w among
        cases isMap : w.isMap with
        | true =>
          have notList : w.isList = false := by cases w <;> first | rfl | cases isMap
          rw [Value.listDepth_of_not_list notList]
          exact Nat.zero_le _
        | false =>
          exact bounded w ((mem_valuesAt_wildcard shallow).mpr ⟨⟨form, items, seen, among⟩, isMap⟩)
      | _ => exact Nat.zero_le _
  apply eq_of_forall_ge_iff
  rintro (_ | depth)
  · have positive := PathNode.arrayDepth_pos filled
    exact iff_of_false (Nat.not_le.mpr positive) (Nat.not_succ_le_zero _)
  · rw [levels, Nat.succ_le_succ_iff]

/-- The tags in lists are those of the scalars among their items, of null and of maps, if there are
any, and those in the lists among the items. -/
theorem NodeOf.mem_itemTags_iff {tag : String} : tag ∈ n.itemTags ↔
    tag ∈ e.scalars.map Value.tag ∨ (tag = "null" ∧ e.nullable = true) ∨
      (tag = "object" ∧ e.keySets ≠ []) ∨ tag ∈ e.itemTags := by
  rw [node.mem_itemTags_iff_item, below.keySets, keySetsAt_wildcard shallow]
  have others := @PathNode.bottom_tags_iff e tag
  simp only [below.values, mem_valuesAt_wildcard shallow] at others
  constructor
  · rintro ⟨w, isItem, tagged⟩
    cases isMap : w.isMap with
    | true =>
      have object := (Value.bottom_tag_of_isMap isMap).mp tagged
      exact .inr (.inr (.inl ⟨object, w, isItem, isMap⟩))
    | false =>
      rcases others.mp ⟨w, ⟨isItem, isMap⟩, tagged⟩ with scalar | null | nested
      · exact .inl scalar
      · exact .inr (.inl null)
      · exact .inr (.inr (.inr nested))
  · have found (tagged : tag ∈ e.scalars.map Value.tag ∨ (tag = "null" ∧ e.nullable = true) ∨
        tag ∈ e.itemTags) : ∃ w, (samplesOf c documents).ItemAt path w ∧
          ∃ leaf ∈ w.bottom, leaf.tag = tag := by
      obtain ⟨w, ⟨isItem, -⟩, inside⟩ := others.mpr tagged
      exact ⟨w, isItem, inside⟩
    rintro (scalar | null | ⟨same, w, isItem, isMap⟩ | nested)
    · exact found (.inl scalar)
    · exact found (.inr (.inl null))
    · exact ⟨w, isItem, (Value.bottom_tag_of_isMap isMap).mpr same⟩
    · exact found (.inr (.inr nested))

/-- At every array the element says what the array does. -/
theorem NodeOf.measures (closed : (samplesOf c documents).Closed c.maxDepth)
    (there : path ++ [.wildcard] ∈ (samplesOf c documents).paths) (filled : n.lists ≠ []) :
    ((samplesOf c documents).shapeAt c (path ++ [.wildcard])).Measures n.arrayDepth n.itemTags := by
  have notDeep : (path ++ [Segment.wildcard]).length ≤ c.maxDepth := by
    rw [List.length_append, List.length_singleton]
    exact shallow
  have deeper := node.arrayDepth_eq shallow below filled
  constructor
  · intro element depth tags array
    obtain ⟨-, -, rfl, -⟩ := (below.array_mem_iff closed notDeep).mp array
    rw [deeper, Nat.add_comm]
    rfl
  · intro noArray
    have noLists : e.lists = [] :=
      not_not.mp (mt (below.has_array_iff closed notDeep).mpr noArray)
    have flat : e.arrayDepth = 0 := by rw [PathNode.arrayDepth, PathNode.nestings, noLists]; rfl
    rw [deeper, flat]
    rfl
  · intro tag
    rw [node.mem_itemTags_iff shallow below, below.has_scalar_iff closed notDeep,
      below.flags_shapeAt closed there notDeep, below.has_map_iff closed notDeep,
      below.tag_in_array_iff closed notDeep]

end Element
end Shallow

/-- Lists without items are flat, and nothing stands in them. -/
theorem NodeOf.measures_of_no_element (node : s.NodeOf path n) (closed : s.Closed c.maxDepth)
    (shallow : path.length ≤ c.maxDepth) (filled : n.lists ≠ []) (noElement : n.element? = none) :
    n.arrayDepth = 1 ∧ n.itemTags = .empty := by
  constructor
  · have atMost : n.arrayDepth ≤ 1 := by
      refine PathNode.arrayDepth_le_iff.mpr fun v seen => ?_
      cases v with
      | list form items =>
        have empty : items = [] := by
          by_contra some
          have there := closed.items path _ items shallow (node.values ▸ seen) rfl some
          rw [node.element?, if_pos there] at noElement
          cases noElement
        subst empty
        exact Nat.le_refl 1
      | _ => exact Nat.zero_le 1
    exact Nat.le_antisymm atMost (PathNode.arrayDepth_pos filled)
  · have noTags := itemTags_of_no_element closed node shallow noElement
    refine TagSet.ext_mem fun tag => iff_of_false ?_ (TagSet.not_mem_empty tag)
    rw [← TagSet.mem_toList, noTags]
    exact List.not_mem_nil

/-- The structure of documents is the shape of their root, unless a decision fails. -/
theorem structureAt_root (c : Config) (documents : List Value) :
    (samplesOf c documents).structureAt c [] 0 =
      match Room.refusal? none (decidingSteps c documents) with
      | some cause => .error (.refused cause)
      | none => .ok ((samplesOf c documents).shapeAt c []) := by
  rw [structureAt, Config.levels_zero]
  rfl

/-- Without documents nothing but null was seen. -/
theorem shapeAt_of_no_documents (c : Config) :
    (samplesOf c []).shapeAt c [] = .primitive { nullable := true } "null" := rfl

end Samples

open Samples

/-- At every array of a structure: it has no element exactly if all lists that were seen there are
empty. Then it is flat, there are no tags in it, and nothing is made of its tags. If it has an
element, it measures up to it, unless the element lies beyond the greatest depth. -/
theorem arrays_measure_elements {c : Config} {documents : List Value} {shape : Structure}
    (returned : (samplesOf c documents).structureAt c [] 0 = .ok shape) {path : Path}
    {node : Structure} (reached : shape.At path node) {element : Option Structure} {depth : Int}
    {tags : TagSet} (array : .array {} element depth tags ∈ node.shapes) :
    (element = none ↔
      ∀ form items, .list form items ∈ (samplesOf c documents).valuesAt path → items = []) ∧
    (element = none → depth = 1 ∧ tags = .empty ∧ Schema.ofItemTags depth tags = .any) ∧
    ∀ e, element = some e → path.length < c.maxDepth → e.Measures depth tags := by
  obtain rfl : shape = (samplesOf c documents).shapeAt c [] := by
    rw [structureAt_root] at returned
    split at returned
    · cases returned
    · exact (Except.ok.inj returned).symm
  by_cases filled : documents = []
  · subst filled
    rw [shapeAt_of_no_documents] at reached
    cases reached with
    | here => simp [Structure.shapes, Structure.withFlags] at array
    | element nested => simp [Structure.shapes, Structure.withFlags] at nested
    | child object => simp [Structure.shapes, Structure.withFlags] at object
  · have closed : (samplesOf c documents).Closed c.maxDepth := closed_ofDocuments filled
    obtain ⟨there, rfl⟩ := closed.shapeAt_of_at closed.root reached
    rw [List.nil_append] at there array
    obtain ⟨n, isNode⟩ := closed.exists_node there
    have shallow : path.length ≤ c.maxDepth := by
      by_contra deep
      rw [shapes_shapeAt_of_deep (Nat.lt_of_not_le deep)] at array
      simp at array
    obtain ⟨lists, rfl, rfl, rfl⟩ := (isNode.array_mem_iff closed shallow).mp array
    refine ⟨?_, ?_, ?_⟩
    · rw [Option.map_eq_none_iff, isNode.element?, ite_eq_right_iff, wildcard_mem_paths_iff shallow]
      constructor
      · intro noItem form items seen
        by_contra some
        obtain ⟨w, among⟩ := List.exists_mem_of_ne_nil _ some
        cases noItem ⟨w, form, items, seen, among⟩
      · rintro empty ⟨w, form, items, seen, among⟩
        obtain rfl := empty form items seen
        cases among
    · intro noElement
      rw [Option.map_eq_none_iff] at noElement
      obtain ⟨flat, bare⟩ := isNode.measures_of_no_element closed shallow lists noElement
      rw [flat, bare]
      exact ⟨rfl, rfl, rfl⟩
    · intro e found further
      obtain ⟨below, isBelow, rfl⟩ := Option.map_eq_some_iff.mp found
      rw [isNode.element?] at isBelow
      split at isBelow
      · rename_i thereBelow
        cases isBelow
        obtain ⟨n', isNode'⟩ := closed.exists_node thereBelow
        exact isNode.measures further isNode' closed thereBelow lists
      · cases isBelow

/-- A list in which null, a string and a list of numbers stand. -/
theorem measures_of_mixed_list :
    let documents : List Value :=
      [.list .list [.null, .text "x", .list .list [.number (.int 1)]], .list .list []]
    ∃ shape element tags, (samplesOf default documents).structureAt default [] 0 = .ok shape ∧
      .array {} (some element) 2 tags ∈ shape.shapes ∧ element.Measures 2 tags := by
  intro documents
  have returned : (samplesOf default documents).structureAt default [] 0 =
      .ok ((samplesOf default documents).shapeAt default []) := by
    rw [structureAt_root]
    rfl
  obtain ⟨element, depth, tags, array, two⟩ : ∃ element depth tags, .array {} (some element) depth
      tags ∈ ((samplesOf default documents).shapeAt default []).shapes ∧ depth = 2 :=
    ⟨_, _, _, .head _, by decide +kernel⟩
  subst two
  obtain ⟨-, -, measures⟩ := arrays_measure_elements returned (.here _) array
  exact ⟨_, element, tags, returned, array, measures element rfl (by decide)⟩

end SchemaInference
