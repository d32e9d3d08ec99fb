import SchemaInference.Proofs.Collection
import SchemaInference.Proofs.PredictionMerging

/-! The shape of predictions. What is said of the values at a position, of the lists among them and
of what stands in these lists fits together: there are arrays where there is a depth, and items
where there is a prediction for them. Lists in lists are not predicted by themselves, as what stands
in a list is gathered from all the lists in it, and is no list; so one level of items is all there
is. Merging keeps this shape. -/
namespace SchemaInference

namespace Value

theorem tag_ne_any (v : Value) : v.tag ≠ "any" := by
  rw [tag]
  cases v.kind <;> decide

/-- What stands at the bottom is no list. -/
theorem isList_of_mem_bottom {v leaf : Value} (inside : leaf ∈ v.bottom) :
    leaf.isList = false := by
  induction v using Value.ind with
  | leaf v notList notMap =>
    rw [bottom_of_not_list notList, List.mem_singleton] at inside
    exact inside ▸ notList
  | list form items ih =>
    rw [bottom, itemsBottom_eq, List.mem_flatMap] at inside
    obtain ⟨item, among, inside⟩ := inside
    exact ih item among inside
  | map form entries ih =>
    obtain rfl := List.mem_singleton.mp inside
    rfl

end Value

namespace TypePrediction

/-- The shape of a prediction for items. Among these there are no lists, so there is nothing to say
of lists or of what stands in them. -/
structure Flat (e : TypePrediction) : Prop where
  noNull : "null" ∉ e.tags
  noArray : "array" ∉ e.tags
  isArray : e.isArray = false
  arrayDepth : e.arrayDepth = 0
  itemTags : e.itemTags = .empty
  element : e.element = none
  noAny : "any" ∉ e.tags

/-- The shape of a prediction: null is no tag of its own, arrays show as a tag, as a flag and as a
depth or not at all, and the tags of items are those of the prediction for them, with null if they
may be null. The tag of what is predicted where the levels have run out is nowhere. -/
structure Shaped (p : TypePrediction) : Prop where
  noNull : "null" ∉ p.tags
  isArray : p.isArray = true ↔ "array" ∈ p.tags
  arrayDepth : 1 ≤ p.arrayDepth ↔ "array" ∈ p.tags
  element : p.element = none ↔ p.itemTags = .empty
  flat : ∀ e, p.element = some e → e.Flat
  itemTags : ∀ e, p.element = some e →
    ∀ tag, tag ∈ p.itemTags ↔ tag ∈ e.tags ∨ (tag = "null" ∧ e.nullable = true)
  noAny : "any" ∉ p.tags

/-- The predictions that come about above the greatest depth: what values are predicted as there,
and two such ones merged. -/
inductive Shallow : TypePrediction → Prop where
  | ofValues (c : Config) (depth : Nat) (above : depth < c.maxDepth) (optional isMap : Bool)
    (values : List Value) : Shallow (ofValues c optional isMap (c.maxDepth + 1 - depth) values)
  | merge {p q : TypePrediction} (first : Shallow p) (later : Shallow q) : Shallow (p.merge q)

/-- With so many levels these values come to be predicted when those are: the values themselves, and
on the next level what stands in each list among them that is not empty at the bottom. -/
inductive Predicts : Nat → List Value → Nat → List Value → Prop where
  | self (levels : Nat) (values : List Value) : Predicts levels values levels values
  | items {levels below : Nat} {values inner : List Value} {s : Nesting}
    (filled : s ∈ filledNestings values) (further : Predicts levels s.leaves below inner) :
    Predicts (levels + 1) values below inner

variable {c : Config} {levels : Nat} {p q e e' : TypePrediction} {values : List Value}
  {optional isMap : Bool}

/-! ## What stands in lists -/

theorem isList_of_mem_leavesOf {leaf : Value} (inside : leaf ∈ leavesOf values) :
    leaf.isList = false := by
  obtain ⟨s, member, inside⟩ := List.mem_flatMap.mp inside
  obtain ⟨v, -, found⟩ := List.mem_filterMap.mp member
  obtain ⟨items, -, rfl⟩ := Option.map_eq_some_iff.mp found
  rw [Nesting.ofItems_eq, Value.itemsBottom_eq] at inside
  obtain ⟨item, -, inside⟩ := List.mem_flatMap.mp inside
  exact Value.isList_of_mem_bottom inside

theorem nestings_of_no_list (none : ∀ v ∈ values, v.isList = false) : nestings values = [] := by
  refine List.filterMap_eq_nil_iff.mpr fun v among => ?_
  cases v with
  | list form items => cases none _ among
  | _ => rfl

/-- Lists have a depth, and nothing else has. -/
theorem deepest_pos_iff : 0 < deepest values ↔ ∃ v ∈ values, v.isList = true := by
  rw [← Nat.not_le, deepest_le_iff, ← not_iff_not]
  push Not
  constructor
  · intro flat v among isList
    cases v with
    | list form items =>
      have nested : Nesting.ofItems items ∈ nestings values :=
        List.mem_filterMap.mpr ⟨_, among, rfl⟩
      have depth := flat _ nested
      rw [Nesting.ofItems_eq] at depth
      exact Nat.not_succ_le_zero _ depth
    | _ => cases isList
  · intro none s member
    rw [nestings_of_no_list fun v among => Bool.eq_false_iff.mpr (none v among)] at member
    cases member

theorem mem_leavesOf_of_filled {s : Nesting} (filled : s ∈ filledNestings values) {leaf : Value}
    (inside : leaf ∈ s.leaves) : leaf ∈ leavesOf values :=
  List.mem_flatMap.mpr ⟨s, (List.mem_filter.mp filled).1, inside⟩

theorem Surveys.mem_tags (surveys : p.Surveys optional isMap values) {tag : String}
    (notObject : tag ≠ "object") :
    tag ∈ p.tags ↔ ∃ v ∈ values, v.isNull = false ∧ v.tag = tag := by
  rw [surveys.tags]
  exact or_iff_right fun ⟨_, same⟩ => notObject same

theorem Surveys.noNull (surveys : p.Surveys optional isMap values) : "null" ∉ p.tags := by
  rw [surveys.mem_tags (by decide)]
  rintro ⟨v, -, notNull, same⟩
  obtain rfl := Value.tag_eq_null_iff.mp same
  cases notNull

theorem Surveys.noAny (surveys : p.Surveys optional isMap values) : "any" ∉ p.tags := by
  rw [surveys.mem_tags (by decide)]
  rintro ⟨v, -, -, same⟩
  exact v.tag_ne_any same

theorem Surveys.array_mem_iff (surveys : p.Surveys optional isMap values) :
    "array" ∈ p.tags ↔ ∃ v ∈ values, v.isList = true := by
  rw [surveys.mem_tags (by decide)]
  refine exists_congr fun v => and_congr_right fun _ => ?_
  rw [Value.tag_eq_array_iff]
  refine and_iff_right_of_imp fun isList => ?_
  cases v <;> first | rfl | cases isList

/-! ## How predictions are shaped -/

/-- What is predicted of values without lists says nothing of lists. -/
theorem Summarizes.flat (summarizes : Summarizes (levels + 1) optional isMap e values)
    (none : ∀ v ∈ values, v.isList = false) : e.Flat := by
  obtain _ | ⟨own, absent, filled, below⟩ := summarizes
  have noNestings := nestings_of_no_list none
  have noLeaves : leavesOf values = [] := by rw [leavesOf, noNestings, List.flatMap_nil]
  refine ⟨own.noNull, ?_, ?_, ?_, ?_, ?_, own.noAny⟩
  · rw [own.array_mem_iff]
    rintro ⟨v, among, isList⟩
    exact Bool.false_ne_true ((none v among).symm.trans isList)
  · rw [own.isArray, List.any_eq_false]
    exact fun v among => Bool.eq_false_iff.mp (none v among)
  · rw [own.arrayDepth, deepest, noNestings]
    rfl
  · refine TagSet.ext_mem fun tag => ?_
    rw [own.itemTags, noLeaves]
    simp
  · exact Option.eq_none_iff_forall_ne_some.mpr fun e found => filled e found noLeaves

/-- Two levels are enough for a prediction to have its shape. -/
theorem Summarizes.shaped (summarizes : Summarizes (levels + 2) optional isMap p values) :
    p.Shaped := by
  obtain _ | ⟨own, absent, filled, below⟩ := summarizes
  refine ⟨own.noNull, ?_, ?_, ?_, ?_, ?_, own.noAny⟩
  · rw [own.isArray, List.any_eq_true, own.array_mem_iff]
  · rw [own.arrayDepth, own.array_mem_iff, ← deepest_pos_iff]
    omega
  · constructor
    · intro none
      refine TagSet.ext_mem fun tag => ?_
      rw [own.itemTags, absent none]
      simp
    · intro noTags
      refine Option.eq_none_iff_forall_ne_some.mpr fun e found => ?_
      obtain ⟨leaf, inside⟩ := List.exists_mem_of_ne_nil _ (filled e found)
      exact TagSet.not_mem_empty leaf.tag (noTags ▸ (own.itemTags _).mpr ⟨leaf, inside, rfl⟩)
  · exact fun e found => (below e found).flat fun leaf => isList_of_mem_leavesOf
  · intro e found tag
    obtain _ | ⟨items, -, -, -⟩ := below e found
    rw [own.itemTags, items.tags, items.nullable, List.any_eq_true]
    constructor
    · rintro ⟨leaf, inside, same⟩
      cases isNull : leaf.isNull with
      | true =>
        obtain rfl := Value.isNull_iff.mp isNull
        exact .inr ⟨same.symm, .null, inside, rfl⟩
      | false => exact .inl (.inr ⟨leaf, inside, isNull, same⟩)
    · rintro ((⟨⟨⟩, -⟩ | ⟨leaf, inside, -, same⟩) | ⟨rfl, leaf, inside, isNull⟩)
      · exact ⟨leaf, inside, same⟩
      · exact ⟨leaf, inside, Value.tag_eq_null_iff.mpr (Value.isNull_iff.mp isNull)⟩

/-! ## Merging -/

theorem mergeItems_eq_none_iff {items items' : Option TypePrediction} :
    mergeItems items items' = none ↔ items = none ∧ items' = none := by
  cases items <;> cases items' <;> simp [mergeItems]

theorem union_eq_empty_iff {a b : TagSet} : a.union b = .empty ↔ a = .empty ∧ b = .empty := by
  have noTags (t : TagSet) : t = .empty ↔ ∀ tag, tag ∉ t :=
    ⟨fun same => same ▸ TagSet.not_mem_empty, fun none => TagSet.ext_mem fun tag => by simp [none]⟩
  simp only [noTags, TagSet.mem_union, not_or, forall_and]

theorem Flat.merge (first : e.Flat) (later : e'.Flat) : (e.merge e').Flat := by
  rw [merge_eq]
  refine ⟨?_, ?_, ?_, ?_, ?_, ?_, ?_⟩
  · simp only [TagSet.mem_union, first.noNull, later.noNull, or_self, not_false_eq_true]
  · simp only [TagSet.mem_union, first.noArray, later.noArray, or_self, not_false_eq_true]
  · simp only [first.isArray, later.isArray, Bool.or_self]
  · simp only [first.arrayDepth, later.arrayDepth, Int.max_self]
  · simp only [first.itemTags, later.itemTags, TagSet.union_self]
  · exact mergeItems_eq_none_iff.mpr ⟨first.element, later.element⟩
  · simp only [TagSet.mem_union, first.noAny, later.noAny, or_self, not_false_eq_true]

/-- Merging keeps the shape of predictions. -/
theorem Shaped.merge (first : p.Shaped) (later : q.Shaped) : (p.merge q).Shaped := by
  rw [merge_eq]
  refine ⟨?_, ?_, ?_, ?_, ?_, ?_, ?_⟩
  · simp only [TagSet.mem_union, first.noNull, later.noNull, or_self, not_false_eq_true]
  · simp only [TagSet.mem_union, Bool.or_eq_true, first.isArray, later.isArray]
  · simp only [TagSet.mem_union, ← first.arrayDepth, ← later.arrayDepth]
    omega
  · simp only [mergeItems_eq_none_iff, union_eq_empty_iff, first.element, later.element]
  · intro e found
    cases element : p.element with
    | none => exact later.flat e (by rwa [element] at found)
    | some e' =>
      cases element' : q.element with
      | none =>
        rw [element, element'] at found
        exact Option.some.inj found ▸ first.flat e' element
      | some e'' =>
        rw [element, element'] at found
        exact Option.some.inj found ▸ (first.flat e' element).merge (later.flat e'' element')
  · -- A side without a prediction of items has no tags of items either.
    intro e found tag
    rw [TagSet.mem_union]
    cases element : p.element with
    | none =>
      rw [first.element.mp element]
      simpa using later.itemTags e (by rwa [element] at found) tag
    | some e' =>
      cases element' : q.element with
      | none =>
        rw [element, element'] at found
        obtain rfl := Option.some.inj found
        rw [later.element.mp element']
        simpa using first.itemTags e' element tag
      | some e'' =>
        rw [element, element'] at found
        obtain rfl := Option.some.inj found
        rw [first.itemTags e' element, later.itemTags e'' element', merge_eq]
        simp only [TagSet.mem_union, Bool.or_eq_true]
        tauto
  · simp only [TagSet.mem_union, first.noAny, later.noAny, or_self, not_false_eq_true]

theorem Shallow.shaped (shallow : p.Shallow) : p.Shaped := by
  induction shallow with
  | ofValues c depth above optional isMap values =>
    obtain ⟨levels, deep⟩ : ∃ levels, c.maxDepth + 1 - depth = levels + 2 :=
      ⟨c.maxDepth - 1 - depth, by omega⟩
    rw [deep]
    exact (summarizes_ofValues c optional isMap (levels + 2) values).shaped
  | merge first later firstShaped laterShaped => exact firstShaped.merge laterShaped

/-! ## Levels -/

theorem filledNestings_of_no_list (none : ∀ v ∈ values, v.isList = false) :
    filledNestings values = [] := by
  rw [filledNestings, nestings_of_no_list none, List.filter_nil]

/-- Values without lists are predicted by themselves. -/
theorem Predicts.levels_eq {below : Nat} {inner : List Value}
    (predicts : Predicts levels values below inner) (none : ∀ v ∈ values, v.isList = false) :
    below = levels := by
  cases predicts with
  | self => rfl
  | items filled further =>
    rw [filledNestings_of_no_list none] at filled
    cases filled

/-- Values are predicted on the first level, and what stands in their lists on the next. -/
theorem Predicts.levels_le {below : Nat} {inner : List Value}
    (predicts : Predicts (levels + 1) values below inner) : levels ≤ below := by
  cases predicts with
  | self => exact Nat.le_succ levels
  | items filled further =>
    exact (further.levels_eq fun leaf inside =>
      isList_of_mem_leavesOf (mem_leavesOf_of_filled filled inside)).ge

/-- The number of levels counts for the prediction of items only. -/
theorem ofValues_succ (c : Config) (optional isMap : Bool) (levels : Nat) (values : List Value) :
    ofValues c optional isMap (levels + 1) values =
      { ofValues c optional isMap 1 values with
        element := (filledNestings values).foldl (fun element s =>
          mergeElement element (ofValues c false false levels s.leaves)) none } := rfl

theorem ofValues_of_no_list (c : Config) (optional isMap : Bool) (levels : Nat)
    (none : ∀ v ∈ values, v.isList = false) :
    ofValues c optional isMap (levels + 1) values = ofValues c optional isMap 1 values := by
  rw [ofValues_succ, ofValues_succ c optional isMap 0, filledNestings_of_no_list none]
  rfl

/-- Beyond the second no level is of use, however deep the lists are nested. -/
theorem ofValues_two_levels (c : Config) (optional isMap : Bool) (levels : Nat)
    (values : List Value) :
    ofValues c optional isMap (levels + 2) values = ofValues c optional isMap 2 values := by
  have items : (filledNestings values).foldl (fun element s =>
        mergeElement element (ofValues c false false (levels + 1) s.leaves)) none =
      (filledNestings values).foldl (fun element s =>
        mergeElement element (ofValues c false false 1 s.leaves)) none := by
    refine List.foldl_ext _ _ _ fun element s filled => ?_
    rw [ofValues_of_no_list c false false levels fun leaf inside =>
      isList_of_mem_leavesOf (mem_leavesOf_of_filled filled inside)]
  rw [ofValues_succ, items, ← ofValues_succ]

/-- Every prediction that comes about above the greatest depth has the shape of one: arrays show in
all three ways or in none, null apart, and items are predicted where there are some, with no items
in turn. So where values are predicted on all levels that there are, these do not run out, and the
result is the same for any number of them beyond the first. -/
theorem predictions_in_shape :
    (∀ p : TypePrediction, p.Shallow → p.Shaped) ∧
      (∀ (c : Config) (values : List Value) (below : Nat) (inner : List Value),
        Predicts (c.maxDepth + 1) values below inner → c.maxDepth ≤ below ∧ 0 < below) ∧
      ∀ (c : Config) (optional isMap : Bool) (levels : Nat) (values : List Value),
        ofValues c optional isMap (levels + 2) values = ofValues c optional isMap 2 values := by
  refine ⟨fun p shallow => shallow.shaped, fun c values below inner predicts => ?_,
    ofValues_two_levels⟩
  exact ⟨predicts.levels_le, Nat.lt_of_lt_of_le c.maxDepth_pos predicts.levels_le⟩

/-- Lists in a list, merged with an empty list and a string from one level further down. -/
theorem shape_of_nested_lists :
    let inner : List Value := [.null, .list .list [.bool true, .list .tuple []]]
    let values : List Value := [.list .list inner, .null]
    let p := (ofValues default false true 101 values).merge
      (ofValues default true false 100 [.list .list [], .text "a"])
    let leaves : List Value := [.null, .bool true]
    p.Shallow ∧ p.Shaped ∧ p.tags.toList = ["array", "object", "string"] ∧
      p.itemTags.toList = ["boolean", "null"] ∧
      (∃ e, p.element = some e ∧ e.Flat ∧ e.tags.toList = ["boolean"] ∧ e.nullable = true) ∧
      Predicts 101 values 100 leaves ∧ 100 ≤ 100 ∧ 0 < 100 := by
  intro inner values p leaves
  obtain ⟨shaped, enough, -⟩ := predictions_in_shape
  have shallow : p.Shallow :=
    .merge (.ofValues default 0 (by decide) ..) (.ofValues default 1 (by decide) ..)
  have fields : p = _ := merge_eq _ _
  have tags : p.tags.toList = ["array", "object", "string"] := by
    rw [fields]
    decide +kernel
  have itemTags : p.itemTags.toList = ["boolean", "null"] := by
    rw [fields]
    decide +kernel
  have items : p.element.map (fun e => (e.tags.toList, e.nullable)) =
      some (["boolean"], true) := by
    rw [fields]
    decide +kernel
  obtain ⟨e, element, same⟩ := Option.map_eq_some_iff.mp items
  obtain ⟨eTags, eNullable⟩ := Prod.mk.inj same
  have nested : Nesting.ofItems inner = ⟨3, leaves⟩ := by rw [Nesting.ofItems_eq]; rfl
  have filled : (⟨3, leaves⟩ : Nesting) ∈ filledNestings values :=
    List.mem_filter.mpr ⟨List.mem_filterMap.mpr ⟨_, List.mem_cons_self, congrArg some nested⟩, rfl⟩
  have predicts : Predicts 101 values 100 leaves := .items filled (.self 100 leaves)
  have shape := shaped p shallow
  exact ⟨shallow, shape, tags, itemTags, ⟨e, element, shape.flat e element, eTags, eNullable⟩,
    predicts, enough default values 100 leaves predicts⟩

end TypePrediction
end SchemaInference
