import SchemaInference.Proofs.Alternatives
import SchemaInference.Proofs.LabelReading
import SchemaInference.Schema.OfStructure

/-! The meaning of a label, and that its schema has it. A label means the values that one of its
members does; where an enumeration is known, it stands for the strings. Printing a label and reading
it back keeps that meaning. -/
namespace SchemaInference

theorem Value.tag_eq_string_iff {v : Value} : v.tag = "string" ↔ ∃ text, v = .text text := by
  constructor
  · intro same
    have kind : v.kind = .string := Kind.tag_injective (show v.kind.tag = Kind.string.tag from same)
    cases v with
    | text s => exact ⟨s, rfl⟩
    | leaf l => cases l <;> simp [Value.kind, Leaf.kind] at kind
    | _ => simp [Value.kind] at kind
  · rintro ⟨text, rfl⟩
    rfl

theorem Value.isNull_iff {v : Value} : v.isNull = true ↔ v = .null := by
  cases v <;> simp [isNull]

theorem Value.tag_eq_null_iff {v : Value} : v.tag = "null" ↔ v = .null := by
  rw [← Value.kind_eq_null_iff]
  exact ⟨fun same => Kind.tag_injective (show v.kind.tag = Kind.null.tag from same),
    fun same => by rw [Value.tag, same]; rfl⟩

theorem Value.tag_eq_array_iff {v : Value} : v.tag = "array" ↔ v.isList = true := by
  rw [← Value.kind_eq_array_iff]
  exact ⟨fun same => Kind.tag_injective (show v.kind.tag = Kind.array.tag from same),
    fun same => by rw [Value.tag, same]; rfl⟩

theorem insertRanked_perm (tag : String) (row : List String) :
    (insertRanked tag row).Perm (tag :: row) := by
  induction row with
  | nil => exact .refl _
  | cons head rest ih =>
    simp only [insertRanked]
    split
    · exact .refl _
    · exact (ih.cons head).trans (.swap tag head rest)

theorem foldr_insertRanked_perm (row : List String) : (row.foldr insertRanked []).Perm row := by
  induction row with
  | nil => exact .refl _
  | cons head rest ih => exact (insertRanked_perm head _).trans (ih.cons head)

/-- A label puts tags in another order and leaves none out. -/
theorem sortTags_perm (tags : List String) : (sortTags tags).Perm (ascending tags) :=
  foldr_insertRanked_perm (ascending tags)

@[simp] theorem mem_sortTags {tag : String} {tags : List String} :
    tag ∈ sortTags tags ↔ tag ∈ tags :=
  (sortTags_perm tags).mem_iff.trans mem_ascending

namespace Label

/-- What a member of a label means: the strings, those of the enumeration where there is one; the
texts of an enumeration that is written out; anything; or the values of one tag. -/
def MemberMeans (enum : Option (List String)) (member : String) (v : Value) : Prop :=
  if member = "string" then ∃ text, v = .text text ∧ ∀ values, enum = some values → text ∈ values
  else match enumValues? member with
    | some values => ∃ text ∈ values, v = .text text
    | none => member ∈ Schema.openWords ∨ v.tag = member

/-- What a label means. That a value may be undefined adds nothing to it, and a label that says
nothing else means everything. -/
def Means (enum : Option (List String)) (label : String) (v : Value) : Prop :=
  let members := (split (Text.trim label)).filter (· != "undefined")
  members = [] ∨ ∃ member ∈ members, MemberMeans enum member v

/-- A label as it is printed with an enumeration for its strings. -/
def withEnum (label : String) (values : List String) : String :=
  render (split label) (some values) ((split label).contains "null")
    ((split label).contains "undefined")

/-- Whether an enumeration survives in a label: printed with it and read again, the label means what
it did, of its strings only those enumerated. -/
def Takes (label : String) (values : List String) : Prop :=
  ∀ v, Means none (withEnum label values) v ↔ Means (some values) label v

/-- A row of members, each of which can stand in a label, with bars between them. -/
def Legible (label : String) : Prop :=
  ∃ members, members ≠ [] ∧ (∀ member ∈ members, Whole member) ∧ label = bar.intercalate members

/-- Values that are read back from the enumeration that they are written in. -/
def Listed (values : List String) : Prop := values ≠ [] ∧ ∀ value ∈ values, Listable value

/-! ## Schemas of labels -/

theorem accepts_ofMember {member : String} {v : Value} :
    (Schema.ofMember member).accepts v = true ↔
      member = "undefined" ∨ MemberMeans none member v := by
  unfold Schema.ofMember MemberMeans
  by_cases isString : member = "string"
  · subst isString
    have single : enumValues? "string" = none := enumValues?_of_bare rfl
    have closed : "string" ∉ Schema.openWords := by decide
    simp [single, closed, Value.tag_eq_string_iff]
  · rw [if_neg isString]
    cases found : enumValues? member with
    | some values =>
      have notUndefined : member ≠ "undefined" := by
        rintro rfl
        rw [enumValues?_of_bare rfl] at found
        cases found
      simp [notUndefined]
    | none =>
      by_cases anything : member ∈ Schema.openWords
      · simp [anything]
      · have notUndefined : member ≠ "undefined" := by
          rintro rfl
          exact anything (by decide)
        simp [anything, notUndefined]

theorem ofMember_distinctNames (member : String) : (Schema.ofMember member).DistinctNames := by
  unfold Schema.ofMember
  split
  · exact .enum _
  · split
    · exact .any
    · exact .scalar _

theorem ofMember_opened (member : String) : (Schema.ofMember member).Opened := by
  refine Schema.opened_of_not_union fun members => ?_
  unfold Schema.ofMember
  split
  · simp
  · split <;> simp

/-- A label with one member is that member. -/
theorem eq_of_split_singleton {label member : String} (trimmed : Text.trim label = label)
    (single : split label = [member]) : member = label := by
  obtain ⟨raw, rawMember, rfl⟩ := List.map_eq_singleton_iff.mp single
  have joined := intercalate_rawMembers label.toList
  rw [rawMember, List.intercalate_singleton] at joined
  rw [joined]
  exact trimmed

theorem trim_trim (s : String) : Text.trim (Text.trim s) = Text.trim s := by
  rw [Text.trim, Text.trim, String.toList_ofList]
  by_cases empty : Text.trimBy Text.isBlank s.toList = []
  · rw [empty]
    rfl
  · rw [trimBy_of_trimmed (trimmed_trimBy empty)]

theorem split_ne_nil (label : String) : split label ≠ [] := by
  simp [split, rawMembers_ne_nil]

/-- The schema of a label accepts what the label means. -/
theorem accepts_ofLabel {label : String} {v : Value} :
    (Schema.ofLabel label).accepts v = true ↔ Means none label v := by
  unfold Schema.ofLabel Means
  dsimp only
  split
  · rename_i several
    rw [Schema.accepts_anyOf]
    · simp only [List.map_eq_nil_iff, List.mem_map, exists_exists_and_eq_and]
      refine or_congr Iff.rfl (exists_congr fun member => and_congr_right fun among => ?_)
      have proper : member ≠ "undefined" := by simpa using (List.mem_filter.mp among).2
      simp [accepts_ofMember, proper]
    · simp only [List.forall_mem_map]
      exact fun member _ => ofMember_distinctNames member
    · simp only [List.forall_mem_map]
      exact fun member _ => (ofMember_opened member).1
  · rename_i notSeveral
    obtain ⟨member, single⟩ : ∃ member, split (Text.trim label) = [member] := by
      have filled := List.length_pos_iff.mpr (split_ne_nil (Text.trim label))
      exact List.length_eq_one_iff.mp (by omega)
    obtain rfl := eq_of_split_singleton (trim_trim label) single
    rw [accepts_ofMember, single]
    by_cases undefined : Text.trim label = "undefined" <;> simp [undefined]

/-! ## Printed labels -/

/-- The members of a printed label. -/
def shown (tags : List String) (enum : Option (List String)) (nullable optional : Bool) :
    List String :=
  if members tags enum = [] then [if nullable then "null" else "undefined"]
  else members tags enum ++ (if nullable then ["null"] else [])
    ++ (if optional then ["undefined"] else [])

theorem render_eq (tags : List String) (enum : Option (List String)) (nullable optional : Bool) :
    render tags enum nullable optional = bar.intercalate (shown tags enum nullable optional) := by
  unfold render shown
  dsimp only
  cases members tags enum with
  | nil => cases nullable <;> simp
  | cons first rest => simp

/-- How a tag is written in a label. -/
def written (enum : Option (List String)) (tag : String) : String :=
  match enum with
  | some values => if tag == "string" then ofEnum values else tag
  | none => tag

/-- The tags that a label shows as members in their own right. -/
def Proper (tag : String) : Prop := tag ≠ "null" ∧ tag ≠ "undefined"

theorem mem_members {tags : List String} {enum : Option (List String)} {member : String} :
    member ∈ members tags enum ↔ ∃ tag ∈ tags, Proper tag ∧ member = written enum tag := by
  have proper (tag : String) :
      (tag != "null" && tag != "undefined") = true ↔ Proper tag := by simp [Proper]
  unfold members written
  cases enum with
  | none =>
    simp only [List.mem_filter, mem_sortTags, proper]
    constructor
    · rintro ⟨member, proper⟩
      exact ⟨_, member, proper, rfl⟩
    · rintro ⟨tag, member, proper, rfl⟩
      exact ⟨member, proper⟩
  | some values =>
    simp only [List.mem_map, List.mem_filter, mem_sortTags, proper, and_assoc]
    exact exists_congr fun tag => and_congr_right fun _ => and_congr_right fun _ => eq_comm

theorem members_eq_nil_iff {tags : List String} {enum : Option (List String)} :
    members tags enum = [] ↔ ∀ tag ∈ tags, ¬ Proper tag := by
  simp only [List.eq_nil_iff_forall_not_mem, mem_members]
  constructor
  · intro none tag member proper
    exact none _ ⟨tag, member, proper, rfl⟩
  · rintro none _ ⟨tag, member, proper, rfl⟩
    exact none tag member proper

variable {tags : List String} {enum : Option (List String)}

theorem whole_written (whole : ∀ tag ∈ tags, Whole tag)
    (listed : ∀ values, enum = some values → Listed values) {tag : String}
    (member : tag ∈ tags) : Whole (written enum tag) := by
  unfold written
  split
  · rename_i values
    split
    · exact whole_ofEnum (listed values rfl).1 (listed values rfl).2
    · exact whole tag member
  · exact whole tag member

theorem shown_ne_nil (tags : List String) (enum : Option (List String)) (nullable optional : Bool) :
    shown tags enum nullable optional ≠ [] := by
  unfold shown
  split <;> simp_all

theorem whole_shown (whole : ∀ tag ∈ tags, Whole tag)
    (listed : ∀ values, enum = some values → Listed values) (nullable optional : Bool) :
    ∀ member ∈ shown tags enum nullable optional, Whole member := by
  have null : Whole "null" := Phrase.whole (by decide)
  have undefined : Whole "undefined" := Phrase.whole (by decide)
  intro member among
  unfold shown at among
  split at among
  · cases nullable <;> simp at among <;> subst among <;> assumption
  · simp only [List.mem_append] at among
    rcases among with (among | among) | among
    · obtain ⟨tag, tagMember, _, rfl⟩ := mem_members.mp among
      exact whole_written whole listed tagMember
    · cases nullable <;> simp at among
      exact among ▸ null
    · cases optional <;> simp at among
      exact among ▸ undefined

/-- A printed label falls into the members that were printed. -/
theorem split_trim_render (tags : List String) (enum : Option (List String))
    (whole : ∀ tag ∈ tags, Whole tag)
    (listed : ∀ values, enum = some values → Listed values) (nullable optional : Bool) :
    split (Text.trim (render tags enum nullable optional)) = shown tags enum nullable optional := by
  have shownWhole := whole_shown whole listed nullable optional
  rw [render_eq, trim_intercalate (shown_ne_nil _ _ _ _) shownWhole,
    split_intercalate _ (shown_ne_nil _ _ _ _) shownWhole]

/-- Writing a tag into a label and reading it there keeps what it means. -/
theorem memberMeans_written (listed : ∀ values, enum = some values → Listed values)
    (tag : String) (v : Value) :
    MemberMeans none (written enum tag) v ↔ MemberMeans enum tag v := by
  unfold written
  cases enum with
  | none => exact Iff.rfl
  | some values =>
    obtain ⟨nonempty, listable⟩ := listed values rfl
    by_cases isString : tag = "string"
    · subst isString
      have notString : ofEnum values ≠ "string" := by
        intro same
        have word : enumValues? (ofEnum values) = none := same ▸ enumValues?_of_bare rfl
        rw [enumValues?_ofEnum nonempty listable] at word
        cases word
      simp only [beq_self_eq_true, if_true, MemberMeans, notString, if_false,
        enumValues?_ofEnum nonempty listable, mem_ascending, Option.some.injEq, forall_eq']
      exact exists_congr fun text => and_comm
    · simp [MemberMeans, isString]

theorem memberMeans_null {enum : Option (List String)} {v : Value} :
    MemberMeans enum "null" v ↔ v = .null := by
  have word : enumValues? "null" = none := enumValues?_of_bare rfl
  have closed : "null" ∉ Schema.openWords := by decide
  simp [MemberMeans, word, closed, Value.tag_eq_null_iff]

theorem written_ne_undefined (listed : ∀ values, enum = some values → Listed values)
    {tag : String} (apart : tag ≠ "undefined") : written enum tag ≠ "undefined" := by
  unfold written
  split
  · rename_i values
    split
    · intro same
      have word : enumValues? (ofEnum values) = none := same ▸ enumValues?_of_bare rfl
      rw [enumValues?_ofEnum (listed values rfl).1 (listed values rfl).2] at word
      cases word
    · exact apart
  · exact apart

/-- A printed label means what its tags do, and null if it says so. -/
theorem means_render (whole : ∀ tag ∈ tags, Whole tag)
    (listed : ∀ values, enum = some values → Listed values)
    (proper : ∃ tag ∈ tags, Proper tag) {nullable optional : Bool} {v : Value} :
    Means none (render tags enum nullable optional) v ↔
      (∃ tag ∈ tags, Proper tag ∧ MemberMeans enum tag v) ∨ (nullable = true ∧ v = .null) := by
  have filled : members tags enum ≠ [] := by
    simpa [members_eq_nil_iff] using proper
  have kept : (members tags enum).filter (· != "undefined") = members tags enum := by
    refine List.filter_eq_self.mpr fun member among => ?_
    obtain ⟨tag, _, tagProper, rfl⟩ := mem_members.mp among
    simpa using written_ne_undefined listed tagProper.2
  have ofTags : (∃ member ∈ members tags enum, MemberMeans none member v) ↔
      ∃ tag ∈ tags, Proper tag ∧ MemberMeans enum tag v := by
    simp only [mem_members]
    constructor
    · rintro ⟨_, ⟨tag, member, tagProper, rfl⟩, means⟩
      exact ⟨tag, member, tagProper, (memberMeans_written listed tag v).mp means⟩
    · rintro ⟨tag, member, tagProper, means⟩
      exact ⟨_, ⟨tag, member, tagProper, rfl⟩, (memberMeans_written listed tag v).mpr means⟩
  unfold Means
  dsimp only
  rw [split_trim_render _ _ whole listed nullable optional, shown, if_neg filled, ← ofTags]
  cases nullable <;> cases optional <;>
    simp [kept, filled, or_and_right, exists_or, memberMeans_null]

/-- A label without a tag of its own means null, or else everything. -/
theorem means_render_of_no_tag (none : ∀ tag ∈ tags, ¬ Proper tag) {nullable optional : Bool}
    {v : Value} :
    Means .none (render tags enum nullable optional) v ↔ (nullable = true → v = .null) := by
  have label : render tags enum nullable optional = if nullable then "null" else "undefined" := by
    rw [render_eq, shown, if_pos (members_eq_nil_iff.mpr none), String.intercalate_singleton]
  have null : split (Text.trim "null") = ["null"] :=
    split_trim_render [] .none (by simp) (by simp) true false
  have undefined : split (Text.trim "undefined") = ["undefined"] :=
    split_trim_render [] .none (by simp) (by simp) false false
  rw [label, Means]
  cases nullable <;> simp [null, undefined, memberMeans_null]

/-- A legible label takes every enumeration that is read back. -/
theorem Legible.takes {label : String} (legible : Legible label) {values : List String}
    (listed : Listed values) : Takes label values := by
  intro v
  obtain ⟨tags, nonempty, whole, rfl⟩ := legible
  have read : split (bar.intercalate tags) = tags := split_intercalate tags nonempty whole
  have known : ∀ others, some values = some others → Listed others := by
    rintro _ ⟨⟩
    exact listed
  have meant : Means (some values) (bar.intercalate tags) v ↔
      (∀ tag ∈ tags, tag = "undefined") ∨
        ∃ tag ∈ tags, tag ≠ "undefined" ∧ MemberMeans (some values) tag v := by
    unfold Means
    dsimp only
    rw [trim_intercalate nonempty whole, read]
    simp [and_assoc]
  rw [withEnum, read, meant]
  by_cases proper : ∃ tag ∈ tags, Proper tag
  · rw [means_render whole known proper]
    obtain ⟨tag, member, tagProper⟩ := proper
    have some_ : ¬ ∀ tag ∈ tags, tag = "undefined" := fun all => tagProper.2 (all tag member)
    simp only [some_, false_or, List.contains_iff_mem]
    constructor
    · rintro (⟨tag, member, tagProper, means⟩ | ⟨nullMember, rfl⟩)
      · exact ⟨tag, member, tagProper.2, means⟩
      · exact ⟨"null", nullMember, by decide, memberMeans_null.mpr rfl⟩
    · rintro ⟨tag, member, notUndefined, means⟩
      by_cases isNull : tag = "null"
      · subst isNull
        exact .inr ⟨member, memberMeans_null.mp means⟩
      · exact .inl ⟨tag, member, ⟨isNull, notUndefined⟩, means⟩
  · have none : ∀ tag ∈ tags, tag = "null" ∨ tag = "undefined" := by
      intro tag member
      by_contra other
      exact proper ⟨tag, member, not_or.mp other⟩
    rw [means_render_of_no_tag (fun tag member tagProper => proper ⟨tag, member, tagProper⟩)]
    simp only [List.contains_iff_mem]
    constructor
    · intro means
      by_cases nullMember : "null" ∈ tags
      · exact .inr ⟨"null", nullMember, by decide, memberMeans_null.mpr (means nullMember)⟩
      · refine .inl fun tag member => (none tag member).resolve_left ?_
        rintro rfl
        exact nullMember member
    · rintro (all | ⟨tag, member, notUndefined, means⟩) nullMember
      · exact absurd (all "null" nullMember) (by decide)
      · obtain rfl := (none tag member).resolve_right notUndefined
        exact memberMeans_null.mp means

end Label

end SchemaInference
