import SchemaInference.Proofs.PredictionLattice

/-! Which enumerations keep the rule. One that is found among the strings of a position does: it
would be found again in its own values. One for the items of lists is put together from those of the
lists, each of which keeps the rule alone; together they have enough values, but nothing asks again
whether these have one casing and lengths that are close. -/
namespace SchemaInference

namespace TypePrediction
variable {c : Config}

/-- The items of several lists are open if those of one are. -/
theorem isOpen_foldl_mergeElement {found : List Nesting} {start : Option TypePrediction}
    {predicted : Nesting → TypePrediction} (each : ∀ s, (predicted s).Coherent)
    (sofar : ∀ e, start = some e → e.Coherent) {e : TypePrediction}
    (folded : found.foldl (fun element s => mergeElement element (predicted s)) start = some e) :
    e.isOpen = (start.any isOpen || found.any fun s => (predicted s).isOpen) := by
  induction found generalizing start with
  | nil =>
    obtain rfl : start = some e := folded
    simp
  | cons s rest ih =>
    have next : ∀ e', mergeElement start (predicted s) = some e' → e'.Coherent := by
      rintro e' ⟨⟩
      cases start with
      | none => exact each s
      | some e'' => exact (sofar e'' rfl).merge (each s)
    rw [ih next folded, List.any_cons]
    cases start with
    | none => simp [mergeElement]
    | some e'' => simp [mergeElement, (sofar e'' rfl).isOpen_merge (each s), Bool.or_assoc]

/-- Strings that are not open make an enumeration. -/
theorem enumOf?_of_not_open {optional isMap : Bool} {levels : Nat} {values : List Value}
    (closed : (ofValues c optional isMap (levels + 1) values).isOpen = false)
    (filled : textsOf values ≠ []) :
    enumOf? c (textsOf values) = some (ascending (textsOf values)) := by
  have string : "string" ∈ (ofValues c optional isMap (levels + 1) values).tags := by
    by_contra noString
    exact filled ((surveys_ofValues c optional isMap levels values).textsOf_eq_nil noString)
  cases enum : enumOf? c (textsOf values) with
  | none =>
    have noEnum : (ofValues c optional isMap (levels + 1) values).enumValues = none := enum
    simp [isOpen, string, noEnum] at closed
  | some texts => rw [(enumOf?_eq_some enum).1]

/-- An enumeration of items comes from lists whose strings each make one. -/
theorem enumOf?_of_element {optional isMap : Bool} {levels : Nat} {values : List Value}
    {e : TypePrediction} {texts : List String}
    (element : (ofValues c optional isMap (levels + 1) values).element = some e)
    (enum : e.enumValues = some texts) {s : Nesting} (member : s ∈ nestings values)
    (filled : textsOf s.leaves ≠ []) :
    enumOf? c (textsOf s.leaves) = some (ascending (textsOf s.leaves)) := by
  have isFilled : s ∈ filledNestings values := by
    refine List.mem_filter.mpr ⟨member, ?_⟩
    cases leaves : s.leaves with
    | nil => simp [leaves, textsOf] at filled
    | cons => rfl
  cases levels with
  | zero =>
    have deep : Summarizes 1 optional isMap (ofValues c optional isMap 1 values) values :=
      summarizes_ofValues c optional isMap 1 values
    obtain _ | ⟨-, -, -, below⟩ := deep
    cases below e element
    cases enum
  | succ levels =>
    have folded := isOpen_foldl_mergeElement
      (fun s => coherent_ofValues c false false (levels + 1) s.leaves) (by simp) element
    have closed : e.isOpen = false := by simp [isOpen, enum]
    rw [closed, Option.any_none, Bool.false_or] at folded
    have own : (ofValues c false false (levels + 1) s.leaves).isOpen = false :=
      Bool.eq_false_iff.mpr (List.any_eq_false.mp folded.symm s isFilled)
    exact enumOf?_of_not_open own filled

theorem mem_textsOf_leavesOf {values : List Value} {text : String} :
    text ∈ textsOf (leavesOf values) ↔ ∃ s ∈ nestings values, text ∈ textsOf s.leaves := by
  rw [leavesOf, textsOf, List.filterMap_flatMap, List.mem_flatMap]
  rfl

/-- What holds several enumerations has at least as many values as each. -/
theorem enumMinValues_le_of_subset {texts others : List String} {values : List String}
    (found : enumOf? c texts = some values) (among : ∀ text ∈ texts, text ∈ others) :
    c.enumMinValues ≤ (ascending others).length := by
  obtain ⟨rfl, enough, -⟩ := enumOf?_eq_some_iff.mp found
  apply enough.trans
  apply (ascending_nodup texts).length_le_of_subset
  intro text member
  exact mem_ascending.mpr (among text (mem_ascending.mp member))

/-- An enumeration of strings keeps the rule. One of the items of lists has all their strings, and
those of each list keep the rule; so it keeps the rule too exactly if its values have one casing and
their lengths are close. -/
theorem enumerations_keep_rule (c : Config) (optional isMap : Bool) (levels : Nat)
    (values : List Value) :
    let p := ofValues c optional isMap levels values
    (∀ texts, p.enumValues = some texts → enumOf? c texts = some texts) ∧
      ∀ e texts, p.element = some e → e.enumValues = some texts →
        texts = ascending (textsOf (leavesOf values)) ∧
        (∀ s ∈ nestings values, textsOf s.leaves ≠ [] →
          enumOf? c (textsOf s.leaves) = some (ascending (textsOf s.leaves))) ∧
        c.enumMinValues ≤ texts.length ∧
        (enumOf? c texts = some texts ↔
          ofOneCasing texts = true ∧ lengthSpread texts ≤ c.enumMaxLengthSpread) := by
  intro p
  constructor
  · intro texts found
    cases levels with
    | zero => cases found
    | succ levels => exact enumOf?_values found
  · intro e texts element enum
    cases levels with
    | zero => cases element
    | succ levels =>
      have deep := summarizes_ofValues c optional isMap (levels + 1) values
      obtain ⟨_, below⟩ := deep.element element
      have all := below.enumValues_eq enum
      have each (s : Nesting) (member : s ∈ nestings values) (filled : textsOf s.leaves ≠ []) :=
        enumOf?_of_element element enum member filled
      have enough : c.enumMinValues ≤ texts.length := by
        obtain ⟨-, -, -, coherent⟩ := coherent_ofValues c optional isMap (levels + 1) values
        obtain ⟨-, listed, -, -⟩ := coherent e element
        obtain ⟨text, member⟩ := List.exists_mem_of_ne_nil _ (listed texts enum).1
        rw [all, mem_ascending, mem_textsOf_leavesOf] at member
        obtain ⟨s, isNesting, inside⟩ := member
        rw [all]
        apply enumMinValues_le_of_subset (each s isNesting (List.ne_nil_of_mem inside))
        intro other among
        exact mem_textsOf_leavesOf.mpr ⟨s, isNesting, among⟩
      refine ⟨all, each, enough, ?_⟩
      have sorted : ascending texts = texts := ascending_of_sorted (all ▸ ascending_sorted _)
      rw [enumOf?_eq_some_iff, sorted]
      simp [enough]

/-- Strings beside two lists of strings, all of one casing. -/
theorem enumerations_of_words :
    let values : List Value := [.text "on", .text "off", .list .list [.text "b", .text "a"],
      .list .list [.text "left", .text "right"]]
    let p := ofValues default false false 101 values
    p.enumValues = some ["off", "on"] ∧ enumOf? default ["off", "on"] = some ["off", "on"] ∧
      ∃ e, p.element = some e ∧ e.enumValues = some ["a", "b", "left", "right"] ∧
        enumOf? default ["a", "b", "left", "right"] = some ["a", "b", "left", "right"] := by
  intro values p
  obtain ⟨own, items⟩ := enumerations_keep_rule default false false 101 values
  have ownEnum : p.enumValues = some ["off", "on"] := by decide +kernel
  have itemEnum : (p.element.bind (·.enumValues)) = some ["a", "b", "left", "right"] := by
    decide +kernel
  obtain ⟨e, element, found⟩ := Option.bind_eq_some_iff.mp itemEnum
  obtain ⟨-, -, -, kept⟩ := items e _ element found
  refine ⟨ownEnum, own _ ownEnum, e, element, found, kept.mpr ⟨?_, ?_⟩⟩
  · decide +kernel
  · decide +kernel

/-- Two lists whose strings come in different casings, each an enumeration. -/
theorem casings_of_two_lists :
    let p := ofValues default false false 101
      [.list .list [.text "on", .text "off"], .list .list [.text "ON", .text "OFF"]]
    ∃ e, p.element = some e ∧ e.enumValues = some ["OFF", "ON", "off", "on"] ∧
      enumOf? default ["OFF", "ON", "off", "on"] = none := by
  intro p
  have enum : (p.element.bind (·.enumValues)) = some ["OFF", "ON", "off", "on"] := by
    decide +kernel
  obtain ⟨e, element, found⟩ := Option.bind_eq_some_iff.mp enum
  refine ⟨e, element, found, ?_⟩
  decide +kernel

end TypePrediction
end SchemaInference
