import SchemaInference.Proofs.Nestings
import SchemaInference.Proofs.ScalarLabels
import SchemaInference.TypePrediction.OfValues

/-! Merging predictions. What a prediction says of values is stated value by value: which tags they
have, how deep their lists go, what stands in them. Two predictions merged say it of the values of
both, and this settles all of a prediction but its enumeration. So merging what two lists of values
are predicted as comes to predicting them as one list, save that an enumeration may be found in one
of the two ways only; one that is left by merging has the texts of all the values. -/
namespace SchemaInference

namespace TypePrediction

/-- The nestings of the lists among values. -/
def nestings (values : List Value) : List Nesting :=
  values.filterMap fun v => v.items?.map Nesting.ofItems

/-- What stands in the lists among values, at the bottom and in order. -/
def leavesOf (values : List Value) : List Value := (nestings values).flatMap Nesting.leaves

/-- The greatest depth of the lists among values, and zero without lists. -/
def deepest (values : List Value) : Nat :=
  (nestings values).foldl (fun deepest s => max deepest s.depth) 0

/-- The texts among values. -/
def textsOf (values : List Value) : List String := values.filterMap Value.text?

/-- What a prediction says of the values at a position, the items of their lists apart. If there is
an enumeration, it has the texts among them, each once and in order. -/
structure Surveys (optional isMap : Bool) (p : TypePrediction) (values : List Value) : Prop where
  tags : ∀ tag, tag ∈ p.tags ↔
    isMap = true ∧ tag = "object" ∨ ∃ v ∈ values, v.isNull = false ∧ v.tag = tag
  enumValues : ∀ texts, p.enumValues = some texts → texts = ascending (textsOf values)
  isArray : p.isArray = values.any Value.isList
  itemTags : ∀ tag, tag ∈ p.itemTags ↔ ∃ leaf ∈ leavesOf values, leaf.tag = tag
  arrayDepth : p.arrayDepth = deepest values
  nullable : p.nullable = values.any Value.isNull
  optional : p.optional = optional

/-- What a prediction says of values and, so many levels deep, of what stands in their lists. Below
that it says nothing of anything. -/
inductive Summarizes : Nat → Bool → Bool → TypePrediction → List Value → Prop where
  | deep {optional isMap : Bool} {values : List Value} :
    Summarizes 0 optional isMap anything values
  | survey {levels : Nat} {optional isMap : Bool} {p : TypePrediction} {values : List Value}
    (own : p.Surveys optional isMap values)
    (absent : p.element = none → leavesOf values = [])
    (filled : ∀ e, p.element = some e → leavesOf values ≠ [])
    (below : ∀ e, p.element = some e → Summarizes levels false false e (leavesOf values)) :
    Summarizes (levels + 1) optional isMap p values

/-- A prediction without its enumeration and those of its items. -/
def withoutEnums : TypePrediction → TypePrediction
  | ⟨tags, _, isArray, itemTags, arrayDepth, element, nullable, optional⟩ =>
    { tags, enumValues := none, isArray, itemTags, arrayDepth
      element := match element with
        | some e => some e.withoutEnums
        | none => none
      nullable, optional }

theorem withoutEnums_eq (p : TypePrediction) :
    p.withoutEnums = { p with enumValues := none, element := p.element.map withoutEnums } := by
  rw [withoutEnums.eq_def]
  obtain ⟨_, _, _, _, _, element, _, _⟩ := p
  cases element <;> rfl

/-- The prediction of items in two positions, in each of which there may have been none. -/
def mergeItems : Option TypePrediction → Option TypePrediction → Option TypePrediction
  | some e, some e' => some (e.merge e')
  | some e, none => some e
  | none, e' => e'

theorem merge_eq (p q : TypePrediction) : p.merge q =
    { tags := p.tags.union q.tags, enumValues := p.mergeEnums q, isArray := p.isArray || q.isArray
      itemTags := p.itemTags.union q.itemTags, arrayDepth := max p.arrayDepth q.arrayDepth
      element := mergeItems p.element q.element, nullable := p.nullable || q.nullable
      optional := p.optional || q.optional } := by
  rw [merge.eq_def]
  obtain ⟨_, _, _, _, _, element, _, _⟩ := p
  obtain ⟨_, _, _, _, _, element', _, _⟩ := q
  cases element <;> cases element' <;> rfl

variable {c : Config} {levels : Nat} {p q : TypePrediction} {xs ys values : List Value}
  {optional optional' isMap isMap' : Bool}

/-! ## Two lists of values -/

theorem nestings_append (xs ys : List Value) : nestings (xs ++ ys) = nestings xs ++ nestings ys :=
  List.filterMap_append

theorem leavesOf_append (xs ys : List Value) :
    leavesOf (xs ++ ys) = leavesOf xs ++ leavesOf ys := by
  rw [leavesOf, nestings_append, List.flatMap_append]
  rfl

theorem textsOf_append (xs ys : List Value) : textsOf (xs ++ ys) = textsOf xs ++ textsOf ys :=
  List.filterMap_append

theorem deepest_le_iff {depth : Nat} :
    deepest values ≤ depth ↔ ∀ s ∈ nestings values, s.depth ≤ depth := by
  rw [deepest, Nesting.foldl_depth_le_iff]
  exact and_iff_right (Nat.zero_le depth)

theorem deepest_append (xs ys : List Value) :
    deepest (xs ++ ys) = max (deepest xs) (deepest ys) := by
  apply eq_of_forall_ge_iff
  intro depth
  rw [Nat.max_le, deepest_le_iff, deepest_le_iff, deepest_le_iff, nestings_append,
    List.forall_mem_append]

theorem Surveys.textsOf_eq_nil (surveys : p.Surveys optional isMap values)
    (noString : "string" ∉ p.tags) : textsOf values = [] := by
  refine List.filterMap_eq_nil_iff.mpr fun v member => ?_
  cases v with
  | text s => exact absurd ((surveys.tags _).mpr (.inr ⟨_, member, rfl, rfl⟩)) noString
  | _ => rfl

/-- The enumeration of two predictions together has the texts of the values of both. -/
theorem Surveys.mergeEnums (first : p.Surveys optional isMap xs)
    (later : q.Surveys optional' isMap' ys) {texts : List String}
    (merged : p.mergeEnums q = some texts) : texts = ascending (textsOf (xs ++ ys)) := by
  rw [textsOf_append]
  unfold TypePrediction.mergeEnums at merged
  split at merged
  · rename_i noString
    rw [first.textsOf_eq_nil noString]
    exact later.enumValues texts merged
  · split at merged
    · rename_i noString
      rw [later.textsOf_eq_nil noString, List.append_nil]
      exact first.enumValues texts merged
    · split at merged
      · rename_i v vs w ws found found'
        cases merged
        rw [first.enumValues _ found, later.enumValues _ found']
        exact ascending_congr fun text => by simp
      · cases merged

/-- Predictions merged say of all their values what each says of its own. -/
theorem Surveys.merge (first : p.Surveys optional isMap xs)
    (later : q.Surveys optional' isMap' ys) :
    (p.merge q).Surveys (optional || optional') (isMap || isMap') (xs ++ ys) := by
  rw [merge_eq]
  constructor
  · intro tag
    simp only [TagSet.mem_union, first.tags, later.tags, List.mem_append, Bool.or_eq_true,
      or_and_right, exists_or]
    exact or_or_or_comm
  · exact fun texts merged => first.mergeEnums later merged
  · simp only [first.isArray, later.isArray, List.any_append]
  · intro tag
    simp only [TagSet.mem_union, first.itemTags, later.itemTags, leavesOf_append, List.mem_append,
      or_and_right, exists_or]
  · simp only [first.arrayDepth, later.arrayDepth, deepest_append]
    omega
  · simp only [first.nullable, later.nullable, List.any_append]
  · simp only [first.optional, later.optional]

theorem anything_merge_anything : anything.merge anything = anything := by
  rw [merge_eq]
  rfl

/-- Merging sums up all the values, with what stands in the lists among them. -/
theorem Summarizes.merge (first : Summarizes levels optional isMap p xs)
    (later : Summarizes levels optional' isMap' q ys) :
    Summarizes levels (optional || optional') (isMap || isMap') (p.merge q) (xs ++ ys) := by
  induction levels generalizing optional optional' isMap isMap' p q xs ys with
  | zero =>
    cases first
    cases later
    rw [anything_merge_anything]
    exact .deep
  | succ levels ih =>
    obtain _ | ⟨own, absent, filled, below⟩ := first
    obtain _ | ⟨own', absent', filled', below'⟩ := later
    have items : (p.merge q).element = mergeItems p.element q.element := by rw [merge_eq]
    refine .survey (own.merge own') ?_ ?_ ?_ <;> rw [items, leavesOf_append]
    · intro none
      cases element : p.element with
      | some e => cases element' : q.element <;> rw [element, element'] at none <;> cases none
      | none =>
        rw [element] at none
        rw [absent element, absent' none, List.append_nil]
    · intro e found
      cases element : p.element with
      | some e' => exact List.append_ne_nil_of_left_ne_nil (filled e' element) _
      | none =>
        rw [element] at found
        exact List.append_ne_nil_of_right_ne_nil _ (filled' e found)
    · intro e found
      cases element : p.element with
      | none =>
        rw [element] at found
        rw [absent element]
        exact below' e found
      | some e =>
        cases element' : q.element with
        | none =>
          rw [element, element'] at found
          cases found
          rw [absent' element', List.append_nil]
          exact below e element
        | some e' =>
          rw [element, element'] at found
          cases found
          exact ih (below e element) (below' e' element')

/-! ## One list of values -/

theorem surveys_ofValues (c : Config) (optional isMap : Bool) (levels : Nat)
    (values : List Value) :
    (ofValues c optional isMap (levels + 1) values).Surveys optional isMap values := by
  constructor
  · intro tag
    have seen : tag ∈ (values.filter fun v => !v.isNull).map Value.tag ↔
        ∃ v ∈ values, v.isNull = false ∧ v.tag = tag := by
      simp [and_assoc]
    rw [ofValues, TagSet.mem_ofList, ← seen]
    cases isMap <;> simp only [if_true, Bool.false_eq_true, if_false, List.mem_cons, true_and,
      false_and, false_or]
  · intro texts found
    exact (enumOf?_eq_some found).1
  · rfl
  · intro tag
    rw [ofValues, TagSet.mem_ofList]
    simp only [Nesting.tags, List.mem_flatMap, List.mem_filter, List.mem_map, leavesOf, nestings]
    constructor
    · rintro ⟨s, ⟨member, -⟩, leaf, inside, same⟩
      exact ⟨leaf, ⟨s, member, inside⟩, same⟩
    · rintro ⟨leaf, ⟨s, member, inside⟩, same⟩
      have filled : s.leaves ≠ [] := List.ne_nil_of_mem inside
      exact ⟨s, ⟨member, by simpa using filled⟩, leaf, inside, same⟩
  · rfl
  · rfl
  · rfl

/-- The nestings of the lists among values that have an item which is no list. -/
def filledNestings (values : List Value) : List Nesting :=
  (nestings values).filter fun s => !s.leaves.isEmpty

theorem leavesOf_eq_filled (values : List Value) :
    leavesOf values = (filledNestings values).flatMap Nesting.leaves := by
  rw [leavesOf, filledNestings]
  induction nestings values with
  | nil => rfl
  | cons s rest ih => cases leaves : s.leaves <;> simp [leaves, ih]

/-- The predictions of lists after the first, merged one by one, sum up what stands in all. -/
theorem summarizes_foldl_mergeElement (found : List Nesting)
    (each : ∀ s ∈ found,
      Summarizes levels false false (ofValues c false false levels s.leaves) s.leaves)
    {e : TypePrediction} {seen : List Value} (sofar : Summarizes levels false false e seen) :
    ∃ e', found.foldl (fun element s =>
        mergeElement element (ofValues c false false levels s.leaves)) (some e) = some e' ∧
      Summarizes levels false false e' (seen ++ found.flatMap Nesting.leaves) := by
  induction found generalizing e seen with
  | nil => exact ⟨e, rfl, by simpa using sofar⟩
  | cons s rest ih =>
    obtain ⟨own, later⟩ := List.forall_mem_cons.mp each
    have next := ih later (sofar.merge own)
    rwa [List.flatMap_cons, ← List.append_assoc]

/-- What values are predicted as sums them up, with what stands in their lists. -/
theorem summarizes_ofValues (c : Config) (optional isMap : Bool) (levels : Nat)
    (values : List Value) :
    Summarizes levels optional isMap (ofValues c optional isMap levels values) values := by
  induction levels generalizing optional isMap values with
  | zero => exact .deep
  | succ levels ih =>
    have items : (ofValues c optional isMap (levels + 1) values).element =
        (filledNestings values).foldl (fun element s =>
          mergeElement element (ofValues c false false levels s.leaves)) none := rfl
    have own := surveys_ofValues c optional isMap levels values
    cases found : filledNestings values with
    | nil =>
      have noLeaves : leavesOf values = [] := by rw [leavesOf_eq_filled, found, List.flatMap_nil]
      have noItems : (ofValues c optional isMap (levels + 1) values).element = none := by
        rw [items, found]
        rfl
      refine .survey own (fun _ => noLeaves) ?_ ?_ <;> rw [noItems] <;> rintro e ⟨⟩
    | cons s rest =>
      have isFilled : s.leaves ≠ [] := by
        have member : s ∈ filledNestings values := found ▸ List.mem_cons_self
        simpa using (List.mem_filter.mp member).2
      have leaves : leavesOf values = s.leaves ++ rest.flatMap Nesting.leaves := by
        rw [leavesOf_eq_filled, found, List.flatMap_cons]
      obtain ⟨e', folded, summarizes⟩ := summarizes_foldl_mergeElement (c := c) rest
        (fun s _ => ih false false s.leaves) (ih false false s.leaves)
      have element : (ofValues c optional isMap (levels + 1) values).element = some e' := by
        rw [items, found, ← folded]
        rfl
      refine .survey own ?_ ?_ ?_ <;> rw [element, leaves]
      · rintro ⟨⟩
      · exact fun _ _ => List.append_ne_nil_of_left_ne_nil isFilled _
      · rintro e ⟨⟩
        exact summarizes

/-! ## One way or the other -/

/-- Two predictions that sum up the same values differ in their enumerations at most. -/
theorem Summarizes.withoutEnums_eq (first : Summarizes levels optional isMap p values)
    (other : Summarizes levels optional isMap q values) : p.withoutEnums = q.withoutEnums := by
  induction levels generalizing optional isMap p q values with
  | zero =>
    cases first
    cases other
    rfl
  | succ levels ih =>
    obtain _ | ⟨own, absent, filled, below⟩ := first
    obtain _ | ⟨own', absent', filled', below'⟩ := other
    have tags : p.tags = q.tags := TagSet.ext_mem fun tag => by rw [own.tags, own'.tags]
    have itemTags : p.itemTags = q.itemTags :=
      TagSet.ext_mem fun tag => by rw [own.itemTags, own'.itemTags]
    have items : p.element.map withoutEnums = q.element.map withoutEnums := by
      cases element : p.element with
      | none =>
        cases element' : q.element with
        | none => rfl
        | some e' => exact absurd (absent element) (filled' e' element')
      | some e =>
        cases element' : q.element with
        | none => exact absurd (absent' element') (filled e element)
        | some e' => exact congrArg some (ih (below e element) (below' e' element'))
    rw [p.withoutEnums_eq, q.withoutEnums_eq, tags, itemTags, items, own.isArray, own'.isArray,
      own.arrayDepth, own'.arrayDepth, own.nullable, own'.nullable, own.optional, own'.optional]

/-- The enumeration of a prediction has the texts of the values that it sums up. -/
theorem Summarizes.enumValues_eq (summarizes : Summarizes levels optional isMap p values)
    {texts : List String} (found : p.enumValues = some texts) :
    texts = ascending (textsOf values) := by
  cases summarizes with
  | deep => cases found
  | survey own => exact own.enumValues texts found

theorem Summarizes.element (summarizes : Summarizes levels optional isMap p values)
    {e : TypePrediction} (found : p.element = some e) :
    ∃ levels, Summarizes levels false false e (leavesOf values) := by
  cases summarizes with
  | deep => cases found
  | survey own absent filled below => exact ⟨_, below e found⟩

/-- Merging what two lists of values are predicted as comes to predicting them as one list, but for
the enumerations; and the enumerations that are left, for the values and for what stands in their
lists, have the texts of all of them, each once and in order. -/
theorem merge_ofValues (c : Config) (levels : Nat) (optional optional' isMap isMap' : Bool)
    (xs ys : List Value) :
    let merged := (ofValues c optional isMap levels xs).merge
      (ofValues c optional' isMap' levels ys)
    merged.withoutEnums =
        (ofValues c (optional || optional') (isMap || isMap') levels (xs ++ ys)).withoutEnums ∧
      (∀ texts, merged.enumValues = some texts → texts = ascending (textsOf (xs ++ ys))) ∧
      ∀ element texts, merged.element = some element → element.enumValues = some texts →
        texts = ascending (textsOf (leavesOf (xs ++ ys))) := by
  intro merged
  have summarizes : Summarizes levels (optional || optional') (isMap || isMap') merged (xs ++ ys) :=
    (summarizes_ofValues c optional isMap levels xs).merge
      (summarizes_ofValues c optional' isMap' levels ys)
  refine ⟨summarizes.withoutEnums_eq (summarizes_ofValues ..),
    fun texts => summarizes.enumValues_eq, fun element texts found enum => ?_⟩
  obtain ⟨_, below⟩ := summarizes.element found
  exact below.enumValues_eq enum

/-- Two lists of words, one of which has a list of words in it. -/
theorem merge_of_words :
    let xs : List Value := [.text "on", .text "off", .list .list [.text "b", .text "a"]]
    let ys : List Value := [.null, .text "idle", .text "on"]
    let merged := (ofValues default false false 2 xs).merge (ofValues default true false 2 ys)
    merged.withoutEnums = (ofValues default true false 2 (xs ++ ys)).withoutEnums ∧
      merged.enumValues = some ["idle", "off", "on"] ∧
      ["idle", "off", "on"] = ascending (textsOf (xs ++ ys)) ∧
      ∃ element, merged.element = some element ∧ element.enumValues = some ["a", "b"] ∧
        ["a", "b"] = ascending (textsOf (leavesOf (xs ++ ys))) := by
  intro xs ys merged
  obtain ⟨same, own, items⟩ := merge_ofValues default 2 false true false false xs ys
  have fields : merged = _ := merge_eq _ _
  have enum : merged.enumValues = some ["idle", "off", "on"] := by
    rw [fields]
    decide +kernel
  have inside : merged.element.bind enumValues = some ["a", "b"] := by
    rw [fields]
    decide +kernel
  obtain ⟨element, found, words⟩ := Option.bind_eq_some_iff.mp inside
  exact ⟨same, enum, own _ enum, element, found, words, items element _ found words⟩

end TypePrediction
end SchemaInference
