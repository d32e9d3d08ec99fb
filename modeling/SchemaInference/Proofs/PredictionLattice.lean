import SchemaInference.Proofs.PredictionMerging

/-! Predictions as a semilattice. Of predictions at large merging can lose something: an enumeration
without strings is forgotten, and one out of order is put in order. The predictions that come about
have neither, at their own position and for their items, and merging keeps it so. For them it
matters neither in which order they are merged, nor how they are grouped, nor how often one
comes. -/
namespace SchemaInference

namespace TypePrediction

/-- The predictions that come about: what values are predicted as, and two such ones merged. -/
inductive Inferred : TypePrediction → Prop where
  | ofValues (c : Config) (optional isMap : Bool) (levels : Nat) (values : List Value) :
    Inferred (ofValues c optional isMap levels values)
  | merge {p q : TypePrediction} (first : Inferred p) (later : Inferred q) : Inferred (p.merge q)

/-- What lets merging lose nothing: an enumeration stands for strings that were seen and has values,
in order; a depth is not negative; and the prediction of items is such a one too. -/
inductive Coherent : TypePrediction → Prop where
  | intro {p : TypePrediction} (seen : ∀ values, p.enumValues = some values → "string" ∈ p.tags)
    (listed : ∀ values, p.enumValues = some values → values ≠ [] ∧ values.Pairwise (· < ·))
    (depth : 0 ≤ p.arrayDepth) (below : ∀ e, p.element = some e → Coherent e) : Coherent p

variable {p q r : TypePrediction}

/-! ## Enumerations -/

/-- Whether strings were seen that make no enumeration. -/
def isOpen (p : TypePrediction) : Bool := decide ("string" ∈ p.tags) && p.enumValues.isNone

/-- The values of the enumeration, and none without one. -/
def words (p : TypePrediction) : List String := p.enumValues.getD []

/-- The enumeration of words, unless there are none or other strings beside them. -/
def enumeration (isOpen : Bool) (words : List String) : Option (List String) :=
  if isOpen || words.isEmpty then none else some (ascending words)

theorem enumeration_eq_some {isOpen : Bool} {words values : List String}
    (found : enumeration isOpen words = some values) : words ≠ [] ∧ values = ascending words := by
  unfold enumeration at found
  split at found
  · cases found
  · rename_i listed
    refine ⟨?_, (Option.some.inj found).symm⟩
    rintro rfl
    simp at listed

/-- An enumeration is known by whether there are other strings, and by its values if not. -/
theorem enumeration_congr {isOpen : Bool} {words words' : List String}
    (same : isOpen = false → ∀ word, word ∈ words ↔ word ∈ words') :
    enumeration isOpen words = enumeration isOpen words' := by
  cases isOpen with
  | true => rfl
  | false =>
    have filled : words.isEmpty = words'.isEmpty := by
      rw [Bool.eq_iff_iff, List.isEmpty_iff, List.isEmpty_iff, List.eq_nil_iff_forall_not_mem,
        List.eq_nil_iff_forall_not_mem]
      exact forall_congr' fun word => not_congr (same rfl word)
    rw [enumeration, enumeration, filled, ascending_congr (same rfl)]

theorem mem_enumeration {words : List String} {word : String} :
    word ∈ (enumeration false words).getD [] ↔ word ∈ words := by
  cases words <;> simp [enumeration]

theorem Coherent.enumValues_eq (coherent : p.Coherent) :
    p.enumValues = enumeration p.isOpen p.words := by
  obtain ⟨-, listed, -, -⟩ := coherent
  cases enum : p.enumValues with
  | none => simp [enumeration, words, enum]
  | some values =>
    obtain ⟨filled, sorted⟩ := listed values enum
    simp [enumeration, isOpen, words, enum, filled, ascending_of_sorted sorted]

theorem Coherent.string_mem_iff (coherent : p.Coherent) :
    "string" ∈ p.tags ↔ p.isOpen = true ∨ p.words ≠ [] := by
  obtain ⟨seen, listed, -, -⟩ := coherent
  cases enum : p.enumValues with
  | none => simp [isOpen, words, enum]
  | some values => simp [isOpen, words, enum, seen values enum, (listed values enum).1]

/-- Two enumerations together have the values of both, unless other strings were seen. -/
theorem Coherent.mergeEnums_eq (first : p.Coherent) (later : q.Coherent) :
    p.mergeEnums q = enumeration (p.isOpen || q.isOpen) (p.words ++ q.words) := by
  have own := first.enumValues_eq
  have own' := later.enumValues_eq
  obtain ⟨seen, listed, -, -⟩ := first
  obtain ⟨seen', listed', -, -⟩ := later
  unfold mergeEnums
  split
  · rename_i noString
    have noEnum : p.enumValues = none :=
      Option.eq_none_iff_forall_ne_some.mpr fun values found => noString (seen values found)
    simpa [isOpen, words, noString, noEnum] using own'
  · rename_i string
    split
    · rename_i noString
      have noEnum : q.enumValues = none :=
        Option.eq_none_iff_forall_ne_some.mpr fun values found => noString (seen' values found)
      simpa [isOpen, words, noString, noEnum] using own
    · rename_i string'
      cases enum : p.enumValues with
      | none => simp [isOpen, enum, not_not.mp string, enumeration]
      | some values =>
        obtain ⟨v, vs, rfl⟩ := List.exists_cons_of_ne_nil (listed values enum).1
        cases enum' : q.enumValues with
        | none => simp [isOpen, enum', not_not.mp string', enumeration]
        | some values' =>
          obtain ⟨w, ws, rfl⟩ := List.exists_cons_of_ne_nil (listed' values' enum').1
          simp [isOpen, words, enum, enum', enumeration]

theorem Coherent.enumValues_merge (first : p.Coherent) (later : q.Coherent) :
    (p.merge q).enumValues = enumeration (p.isOpen || q.isOpen) (p.words ++ q.words) := by
  rw [merge_eq, first.mergeEnums_eq later]

theorem Coherent.isOpen_merge (first : p.Coherent) (later : q.Coherent) :
    (p.merge q).isOpen = (p.isOpen || q.isOpen) := by
  have string : "string" ∈ (p.merge q).tags ↔ "string" ∈ p.tags ∨ "string" ∈ q.tags := by
    rw [merge_eq, TagSet.mem_union]
  rw [isOpen, first.enumValues_merge later, Bool.eq_iff_iff]
  simp only [string, first.string_mem_iff, later.string_mem_iff, enumeration]
  cases p.isOpen <;> cases q.isOpen <;> simp [imp_iff_not_or]

theorem Coherent.mem_words_merge (first : p.Coherent) (later : q.Coherent)
    (closed : p.isOpen = false) (closed' : q.isOpen = false) (word : String) :
    word ∈ (p.merge q).words ↔ word ∈ p.words ∨ word ∈ q.words := by
  rw [words, first.enumValues_merge later, closed, closed', Bool.or_self, mem_enumeration,
    List.mem_append]

/-! ## The laws -/

theorem Coherent.merge (first : p.Coherent) (later : q.Coherent) : (p.merge q).Coherent := by
  induction first generalizing q with
  | @intro p seen listed depth below ih =>
    have first : p.Coherent := .intro seen listed depth below
    have enum := first.enumValues_merge later
    apply Coherent.intro
    · intro values found
      obtain ⟨filled, -⟩ := enumeration_eq_some (enum.symm.trans found)
      rw [merge_eq, TagSet.mem_union, first.string_mem_iff, later.string_mem_iff]
      by_cases own : p.words = []
      · rw [own, List.nil_append] at filled
        exact .inr (.inr filled)
      · exact .inl (.inr own)
    · intro values found
      obtain ⟨filled, rfl⟩ := enumeration_eq_some (enum.symm.trans found)
      obtain ⟨word, member⟩ := List.exists_mem_of_ne_nil _ filled
      exact ⟨List.ne_nil_of_mem (mem_ascending.mpr member), ascending_sorted _⟩
    · rw [merge_eq]
      exact Int.le_trans depth (Int.le_max_left _ _)
    · intro e found
      obtain ⟨-, -, -, below'⟩ := later
      rw [merge_eq] at found
      cases element : p.element with
      | none =>
        rw [element] at found
        exact below' e found
      | some e' =>
        cases element' : q.element with
        | none =>
          rw [element, element'] at found
          exact Option.some.inj found ▸ below e' element
        | some e'' =>
          rw [element, element'] at found
          exact Option.some.inj found ▸ ih e' element (below' e'' element')

theorem Coherent.merge_comm (first : p.Coherent) (later : q.Coherent) :
    p.merge q = q.merge p := by
  induction first generalizing q with
  | @intro p seen listed depth below ih =>
    have first : p.Coherent := .intro seen listed depth below
    have enums : p.mergeEnums q = q.mergeEnums p := by
      rw [first.mergeEnums_eq later, later.mergeEnums_eq first, Bool.or_comm]
      apply enumeration_congr
      intro _ word
      rw [List.mem_append, List.mem_append, or_comm]
    have items : mergeItems p.element q.element = mergeItems q.element p.element := by
      obtain ⟨-, -, -, below'⟩ := later
      cases element : p.element with
      | none => cases q.element <;> rfl
      | some e =>
        cases element' : q.element with
        | none => rfl
        | some e' => exact congrArg some (ih e element (below' e' element'))
    rw [merge_eq, merge_eq, enums, items, p.tags.union_comm, p.itemTags.union_comm,
      Int.max_comm p.arrayDepth, Bool.or_comm p.isArray, Bool.or_comm p.nullable,
      Bool.or_comm p.optional]

theorem Coherent.merge_assoc (first : p.Coherent) (second : q.Coherent) (third : r.Coherent) :
    (p.merge q).merge r = p.merge (q.merge r) := by
  induction first generalizing q r with
  | @intro p seen listed depth below ih =>
    have first : p.Coherent := .intro seen listed depth below
    have enums : (p.merge q).mergeEnums r = p.mergeEnums (q.merge r) := by
      rw [(first.merge second).mergeEnums_eq third, first.mergeEnums_eq (second.merge third),
        first.isOpen_merge second, second.isOpen_merge third, Bool.or_assoc]
      apply enumeration_congr
      intro closed word
      obtain ⟨pClosed, qClosed, rClosed⟩ :
          p.isOpen = false ∧ q.isOpen = false ∧ r.isOpen = false := by simpa using closed
      rw [List.mem_append, List.mem_append, first.mem_words_merge second pClosed qClosed,
        second.mem_words_merge third qClosed rClosed, or_assoc]
    have items : mergeItems (mergeItems p.element q.element) r.element =
        mergeItems p.element (mergeItems q.element r.element) := by
      obtain ⟨-, -, -, below'⟩ := second
      obtain ⟨-, -, -, below''⟩ := third
      cases element : p.element with
      | none => rfl
      | some e =>
        cases element' : q.element with
        | none => rfl
        | some e' =>
          cases element'' : r.element with
          | none => rfl
          | some e'' =>
            exact congrArg some (ih e element (below' e' element') (below'' e'' element''))
    have left := merge_eq (p.merge q) r
    have right := merge_eq p (q.merge r)
    rw [left, right, enums]
    simp only [merge_eq, items, TagSet.union_assoc, Bool.or_assoc, Int.max_assoc]

theorem Coherent.merge_self (coherent : p.Coherent) : p.merge p = p := by
  induction coherent with
  | @intro p seen listed depth below ih =>
    have coherent : p.Coherent := .intro seen listed depth below
    have enums : p.mergeEnums p = p.enumValues := by
      rw [coherent.mergeEnums_eq coherent, coherent.enumValues_eq, Bool.or_self]
      apply enumeration_congr
      intro _ word
      rw [List.mem_append, or_self]
    have items : mergeItems p.element p.element = p.element := by
      cases element : p.element with
      | none => rfl
      | some e => exact congrArg some (ih e element)
    rw [merge_eq, enums, items, TagSet.union_self, TagSet.union_self, Int.max_self, Bool.or_self,
      Bool.or_self, Bool.or_self]
    cases p
    rfl

/-- A prediction that says nothing adds nothing. -/
theorem Coherent.blank_merge (coherent : p.Coherent) :
    ({} : TypePrediction).merge p = p := by
  obtain ⟨-, -, depth, -⟩ := coherent
  have enums : ({} : TypePrediction).mergeEnums p = p.enumValues :=
    if_pos (TagSet.not_mem_empty _)
  rw [merge_eq, enums, TagSet.empty_union, TagSet.empty_union, Int.max_eq_right depth]
  cases p
  rfl

/-! ## Predictions that come about -/

theorem coherent_blank : ({} : TypePrediction).Coherent := by
  refine .intro ?_ ?_ (Int.le_refl 0) ?_ <;> rintro _ ⟨⟩

theorem coherent_anything : anything.Coherent := by
  refine .intro ?_ ?_ (Int.le_refl 0) ?_ <;> rintro _ ⟨⟩

/-- What is predicted of the items of one list after the other stays coherent. -/
theorem coherent_foldl_mergeElement {found : List Nesting} {start : Option TypePrediction}
    {predicted : Nesting → TypePrediction} (each : ∀ s ∈ found, (predicted s).Coherent)
    (sofar : ∀ e, start = some e → e.Coherent) {e : TypePrediction}
    (folded : found.foldl (fun element s => mergeElement element (predicted s)) start = some e) :
    e.Coherent := by
  induction found generalizing start with
  | nil => exact sofar e folded
  | cons s rest ih =>
    obtain ⟨own, later⟩ := List.forall_mem_cons.mp each
    refine ih later (fun e' next => ?_) folded
    cases start with
    | none => exact Option.some.inj next ▸ own
    | some e'' => exact Option.some.inj next ▸ (sofar e'' rfl).merge own

theorem coherent_ofValues (c : Config) (optional isMap : Bool) (levels : Nat)
    (values : List Value) : (ofValues c optional isMap levels values).Coherent := by
  induction levels generalizing optional isMap values with
  | zero => exact coherent_anything
  | succ levels ih =>
    have surveys := surveys_ofValues c optional isMap levels values
    apply Coherent.intro
    · intro texts found
      obtain ⟨same, listed⟩ := enumOf?_eq_some found
      by_contra noString
      have noTexts : values.filterMap Value.text? = [] := surveys.textsOf_eq_nil noString
      rw [noTexts] at same
      exact listed.1 same
    · intro texts found
      obtain ⟨rfl, listed⟩ := enumOf?_eq_some found
      exact ⟨listed.1, ascending_sorted _⟩
    · rw [surveys.arrayDepth]
      exact Int.natCast_nonneg _
    · intro e found
      exact coherent_foldl_mergeElement (fun s _ => ih false false s.leaves) (by simp) found

theorem Inferred.coherent (inferred : p.Inferred) : p.Coherent := by
  induction inferred with
  | ofValues c optional isMap levels values => apply coherent_ofValues
  | merge _ _ first later => exact first.merge later

/-- Of no values nothing is predicted. -/
theorem ofValues_nil (c : Config) (levels : Nat) :
    ofValues c false false (levels + 1) [] = {} :=
  calc ofValues c false false (levels + 1) []
    _ = { enumValues := enumOf? c [] } := rfl
    _ = {} := by rw [enumOf?_nil]

/-- Predictions that come about form a semilattice: merging depends neither on their order nor on
how they are grouped nor on how often each comes, and what no values are predicted as adds
nothing. -/
theorem merge_semilattice (first : p.Inferred) (second : q.Inferred) (third : r.Inferred) :
    p.merge q = q.merge p ∧ (p.merge q).merge r = p.merge (q.merge r) ∧ p.merge p = p ∧
      ∀ c : Config, (ofValues c false false (c.maxDepth + 1) []).merge p = p ∧
        p.merge (ofValues c false false (c.maxDepth + 1) []) = p := by
  have coherent := first.coherent
  refine ⟨coherent.merge_comm second.coherent,
    coherent.merge_assoc second.coherent third.coherent, coherent.merge_self, fun c => ?_⟩
  rw [ofValues_nil, coherent.merge_comm coherent_blank]
  exact ⟨coherent.blank_merge, coherent.blank_merge⟩

/-- An enumeration, another beside a list of one, and a string that makes none. -/
theorem merge_of_enumerations :
    let switch := ofValues default false false 101 [.text "on", .text "off"]
    let nested := ofValues default true false 101
      [.text "idle", .text "busy", .list .list [.text "b", .text "a"], .null]
    let plain := (ofValues default false false 101 [.text "x"]).merge nested
    switch.Inferred ∧ nested.Inferred ∧ plain.Inferred ∧
      (switch.merge nested).enumValues = some ["busy", "idle", "off", "on"] ∧
      plain.enumValues = none ∧ switch.merge nested = nested.merge switch ∧
      (switch.merge nested).merge plain = switch.merge (nested.merge plain) ∧
      switch.merge switch = switch ∧
      (ofValues default false false 101 []).merge nested = nested ∧
      nested.merge (ofValues default false false 101 []) = nested := by
  intro switch nested plain
  have switchInferred : switch.Inferred := .ofValues ..
  have nestedInferred : nested.Inferred := .ofValues ..
  have plainInferred : plain.Inferred := .merge (.ofValues ..) nestedInferred
  obtain ⟨comm, assoc, self, -⟩ := merge_semilattice switchInferred nestedInferred plainInferred
  obtain ⟨-, -, -, blank⟩ := merge_semilattice nestedInferred switchInferred plainInferred
  have enum : (switch.merge nested).enumValues = some ["busy", "idle", "off", "on"] := by
    rw [merge_eq]
    decide +kernel
  have none : plain.enumValues = none := by
    rw [show plain = _ from merge_eq _ _]
    decide +kernel
  exact ⟨switchInferred, nestedInferred, plainInferred, enum, none, comm, assoc, self,
    (blank default).1, (blank default).2⟩

end TypePrediction
end SchemaInference
