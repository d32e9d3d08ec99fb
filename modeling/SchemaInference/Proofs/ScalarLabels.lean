import Mathlib.Data.List.TakeWhile
import SchemaInference.EnumRule
import SchemaInference.Proofs.LabelMeaning

/-! The schemas of scalars that were seen. Their label is printed, an enumeration may be written
into it, and it is read again; what comes out has one alternative for every tag, the enumeration
standing for the strings. -/
namespace SchemaInference

/-! ## Enumerations that are found -/

/-- A letter of the Latin alphabet is no blank, no bar and no bracket. -/
theorem Casing.proper_letter {c : Char} (letter : isLower c = true ∨ isUpper c = true) :
    Text.isBlank c = false ∧ c ≠ '|' ∧ c ≠ '(' ∧ c ≠ ')' := by
  have range : 97 ≤ c.toNat ∧ c.toNat ≤ 122 ∨ 65 ≤ c.toNat ∧ c.toNat ≤ 90 := by
    simpa [isLower, isUpper, Char.le_def, UInt32.le_iff_toNat_le] using letter
  refine ⟨?_, ?_, ?_, ?_⟩
  · simp only [Text.isBlank, Text.isSpace, Bool.or_eq_false_iff, Bool.and_eq_false_iff,
      decide_eq_false_iff_not, beq_eq_false_iff_ne]
    omega
  all_goals
    rintro rfl
    simp at range

/-- A text of letters, even without any, can be a value of an enumeration. -/
theorem Casing.listable {text : String}
    (letters : ∀ c ∈ text.toList, isLower c = true ∨ isUpper c = true) : Label.Listable text := by
  have proper (c : Char) (member : c ∈ text.toList) := proper_letter (letters c member)
  have noOpening : text.toList.count '(' = 0 :=
    List.count_eq_zero.mpr fun bracket => (proper _ bracket).2.2.1 rfl
  have noClosing : text.toList.count ')' = 0 :=
    List.count_eq_zero.mpr fun bracket => (proper _ bracket).2.2.2 rfl
  have dropNothing (cs : List Char) (among : ∀ c ∈ cs, c ∈ text.toList) :
      cs.dropWhile Text.isBlank = cs := by
    rw [List.dropWhile_eq_self_iff]
    intro filled
    simp [(proper _ (among _ (List.getElem_mem filled))).1]
  refine ⟨?_, Label.barless_of_not_mem fun bar => (proper _ bar).2.1 rfl,
    by simp [Label.balance, noOpening, noClosing]⟩
  rw [Text.trimBy, dropNothing _ fun _ => id, dropNothing _ fun _ => List.mem_reverse.mp,
    List.reverse_reverse]

/-- A word of one casing can be a value of an enumeration. -/
theorem Casing.listable_of_holds {casing : Casing} {text : String}
    (holds : casing.holds text.toList = true) : Label.Listable text := by
  apply Casing.listable
  generalize text.toList = cs at holds
  cases casing with
  | lower =>
    obtain ⟨-, all⟩ : cs ≠ [] ∧ ∀ c ∈ cs, isLower c = true := by
      simpa [Casing.holds] using holds
    exact fun c member => .inl (all c member)
  | upper =>
    obtain ⟨-, all⟩ : cs ≠ [] ∧ ∀ c ∈ cs, isUpper c = true := by
      simpa [Casing.holds] using holds
    exact fun c member => .inr (all c member)
  | capitalized =>
    cases cs with
    | nil => simp [Casing.holds] at holds
    | cons first rest =>
      obtain ⟨⟨head, -⟩, tail⟩ : (isUpper first = true ∧ rest ≠ []) ∧
          ∀ c ∈ rest, isLower c = true := by
        simpa [Casing.holds] using holds
      exact List.forall_mem_cons.mpr ⟨.inr head, fun c member => .inl (tail c member)⟩

/-- An enumeration that is found has the texts it was found in, and can be written into a label. -/
theorem enumOf?_eq_some {c : Config} {texts values : List String}
    (found : enumOf? c texts = some values) :
    values = ascending texts ∧ Label.Listed values := by
  obtain ⟨same, enough, oneCasing, -⟩ := enumOf?_eq_some_iff.mp found
  obtain ⟨casing, -, all⟩ := List.any_eq_true.mp oneCasing
  have several := c.two_le_enumMinValues
  refine ⟨same, ?_, fun value member =>
    Casing.listable_of_holds (List.all_eq_true.mp all value member)⟩
  rintro rfl
  simp only [List.length_nil] at enough
  omega

theorem enumOf?_congr (c : Config) {texts others : List String}
    (same : ∀ text, text ∈ texts ↔ text ∈ others) : enumOf? c texts = enumOf? c others := by
  rw [enumOf?, enumOf?, ascending_congr same]

/-- An enumeration that is found would be found in its own values. -/
theorem enumOf?_values {c : Config} {texts values : List String}
    (found : enumOf? c texts = some values) : enumOf? c values = some values := by
  obtain ⟨rfl, -⟩ := enumOf?_eq_some found
  exact (enumOf?_congr c fun _ => mem_ascending).trans found

theorem enumOf?_nil (c : Config) : enumOf? c [] = none := by
  have several := c.two_le_enumMinValues
  have few : ¬ c.enumMinValues ≤ 0 := by omega
  simp [enumOf?, ascending, few]

/-! ## Tags of values -/

theorem Kind.phrase_tag (kind : Kind) : Label.Phrase kind.tag := by cases kind <;> decide

theorem Kind.proper_tag {kind : Kind} (notNull : kind ≠ .null) : Label.Proper kind.tag := by
  cases kind <;> first | contradiction | exact ⟨by decide, by decide⟩

theorem Kind.tag_ne_undefined (kind : Kind) : kind.tag ≠ "undefined" := by
  cases kind <;> decide

theorem Kind.ofMember_tag (kind : Kind) : Schema.ofMember kind.tag = .scalar kind.tag := by
  have bare : Label.enumValues? kind.tag = none :=
    Label.enumValues?_of_bare (by cases kind <;> rfl)
  have closed : Schema.openWords.contains kind.tag = false := by cases kind <;> decide
  rw [Schema.ofMember, bare]
  simp only [closed]
  rfl

/-- Tags of values that are not null. -/
def OfValues (tags : List String) : Prop :=
  ∀ tag ∈ tags, ∃ kind : Kind, kind ≠ .null ∧ tag = kind.tag

namespace Schema

/-- What accepts the values of a tag, with the enumeration in place of the strings. -/
def scalarOf (enum : Option (List String)) (tag : String) : Schema :=
  match enum with
  | some values => if tag == "string" then .enum (ascending values) else .scalar tag
  | none => .scalar tag

variable {enum : Option (List String)} {tags : List String}

theorem ofMember_written (listed : ∀ values, enum = some values → Label.Listed values)
    (kind : Kind) : ofMember (Label.written enum kind.tag) = scalarOf enum kind.tag := by
  unfold Label.written scalarOf
  cases enum with
  | none => exact kind.ofMember_tag
  | some values =>
    obtain ⟨filled, listable⟩ := listed values rfl
    dsimp only
    split
    · simp [ofMember, Label.enumValues?_ofEnum filled listable]
    · exact kind.ofMember_tag

/-- A scalar is an enumeration, if one was found and the scalar is a string, or plainly of its
tag. -/
theorem scalarOf_cases (enum : Option (List String)) (tag : String) :
    (∃ values, enum = some values ∧ scalarOf enum tag = .enum (ascending values)) ∨
      scalarOf enum tag = .scalar tag := by
  cases enum with
  | none => exact .inr rfl
  | some values =>
    by_cases isString : tag = "string"
    · exact .inl ⟨values, rfl, by simp [scalarOf, isString]⟩
    · exact .inr (by simp [scalarOf, isString])

theorem scalarOf_ne_any (enum : Option (List String)) (tag : String) :
    scalarOf enum tag ≠ .any := by
  rcases scalarOf_cases enum tag with ⟨_, -, made⟩ | made <;> simp [made]

theorem alternatives_scalarOf (enum : Option (List String)) (tag : String) :
    (scalarOf enum tag).alternatives = [scalarOf enum tag] := by
  rcases scalarOf_cases enum tag with ⟨_, -, made⟩ | made <;> rw [made] <;> rfl

/-- Scalars of different tags are different schemas, with an enumeration among them or without. -/
theorem same_scalarOf {tag other : String} (apart : tag ≠ other) :
    same (scalarOf enum tag) (scalarOf enum other) = false := by
  unfold scalarOf
  cases enum with
  | none => simpa [same] using apart
  | some values =>
    by_cases isString : tag = "string" <;> by_cases otherIsString : other = "string" <;>
      simp_all [same]

/-- Scalars of distinct tags are different schemas, whichever of them comes first. -/
theorem scalarOf_pairwise (enum : Option (List String)) (distinct : tags.Nodup) :
    (tags.map (scalarOf enum)).Pairwise Differ := by
  rw [List.pairwise_map]
  exact distinct.imp fun apart => ⟨same_scalarOf apart, same_scalarOf (Ne.symm apart)⟩

private theorem flatMap_alternatives (tags : List String) :
    (tags.map (scalarOf enum)).flatMap alternatives = tags.map (scalarOf enum) := by
  induction tags with
  | nil => rfl
  | cons tag rest ih => simp [alternatives_scalarOf, ih]

theorem sortTags_ne_nil (filled : tags ≠ []) : sortTags tags ≠ [] := by
  obtain ⟨tag, member⟩ := List.exists_mem_of_ne_nil tags filled
  exact List.ne_nil_of_mem (mem_sortTags.mpr member)

theorem sortTags_sortTags (tags : List String) : sortTags (sortTags tags) = sortTags tags := by
  rw [sortTags, ascending_congr (fun tag => mem_sortTags), ← sortTags]

theorem whole_of_ofValues (ofValues : OfValues tags) : ∀ tag ∈ tags, Label.Whole tag := by
  intro tag member
  obtain ⟨kind, -, rfl⟩ := ofValues tag member
  exact kind.phrase_tag.whole

theorem proper_of_ofValues (ofValues : OfValues tags) : ∀ tag ∈ tags, Label.Proper tag := by
  intro tag member
  obtain ⟨kind, notNull, rfl⟩ := ofValues tag member
  exact Kind.proper_tag notNull

/-- The tags that a label shows: its own, in order, and null after them if it says so. -/
def shownTags (tags : List String) (nullable : Bool) : List String :=
  sortTags tags ++ if nullable then ["null"] else []

@[simp] theorem mem_shownTags {tag : String} {nullable : Bool} :
    tag ∈ shownTags tags nullable ↔ tag ∈ tags ∨ (nullable = true ∧ tag = "null") := by
  cases nullable <;> simp [shownTags]

theorem shownTags_ne_nil {nullable : Bool} (filled : tags ≠ [] ∨ nullable = true) :
    shownTags tags nullable ≠ [] := by
  rcases filled with filled | rfl
  · simp [shownTags, sortTags_ne_nil filled]
  · simp [shownTags]

theorem shownTags_nodup (ofValues : OfValues tags) (nullable : Bool) :
    (shownTags tags nullable).Nodup := by
  have distinct : (sortTags tags).Nodup := (sortTags_perm tags).nodup_iff.mpr (ascending_nodup tags)
  have noNull : "null" ∉ sortTags tags := fun member =>
    (proper_of_ofValues ofValues _ (mem_sortTags.mp member)).1 rfl
  cases nullable with
  | false => simpa [shownTags] using distinct
  | true =>
    refine List.nodup_append.mpr ⟨distinct, by simp, ?_⟩
    rintro tag member _ isNull rfl
    exact noNull (List.mem_singleton.mp isNull ▸ member)

theorem exists_kind_of_mem_shownTags {nullable : Bool} (ofValues : OfValues tags) {tag : String}
    (member : tag ∈ shownTags tags nullable) : ∃ kind : Kind, tag = kind.tag := by
  rcases mem_shownTags.mp member with member | ⟨-, rfl⟩
  · obtain ⟨kind, -, rfl⟩ := ofValues tag member
    exact ⟨kind, rfl⟩
  · exact ⟨.null, rfl⟩

theorem members_ofValues (ofValues : OfValues tags) :
    Label.members tags enum = (sortTags tags).map (Label.written enum) := by
  have kept : (sortTags tags).filter (fun tag => tag != "null" && tag != "undefined") =
      sortTags tags :=
    List.filter_eq_self.mpr fun tag member => by
      simpa [Label.Proper] using proper_of_ofValues ofValues tag (mem_sortTags.mp member)
  unfold Label.members Label.written
  rw [kept]
  cases enum with
  | none => simp
  | some values => rfl

theorem shown_ofValues {nullable : Bool} (filled : tags ≠ [] ∨ nullable = true)
    (ofValues : OfValues tags) : Label.shown tags enum nullable false =
      (shownTags tags nullable).map (Label.written enum) := by
  have null : Label.written enum "null" = "null" := by cases enum <;> rfl
  rw [Label.shown, members_ofValues ofValues, shownTags]
  by_cases none : tags = []
  · obtain rfl : nullable = true := filled.resolve_left fun some => some none
    simp [none, sortTags, ascending, null]
  · cases nullable <;> simp [sortTags_ne_nil none, null]

/-- The label of tags of values is the tags, in order, with bars between them. -/
theorem render_ofValues (filled : tags ≠ []) (ofValues : OfValues tags) :
    Label.render tags none false false = Label.bar.intercalate (sortTags tags) := by
  have written : (sortTags tags).map (Label.written none) = sortTags tags := List.map_id _
  rw [Label.render_eq, shown_ofValues (.inl filled) ofValues]
  simp [shownTags, written]

theorem split_render (filled : tags ≠ []) (ofValues : OfValues tags) :
    Label.split (Label.render tags none false false) = sortTags tags := by
  rw [render_ofValues filled ofValues]
  exact Label.split_intercalate _ (sortTags_ne_nil filled)
    fun tag member => whole_of_ofValues ofValues tag (mem_sortTags.mp member)

/-- The label of tags of values, with an enumeration or without, is read as one alternative for
every tag, and one for null if it says so. -/
theorem ofLabel_render {nullable : Bool} (filled : tags ≠ [] ∨ nullable = true)
    (ofValues : OfValues tags)
    (listed : ∀ values, enum = some values → Label.Listed values) :
    ofLabel (Label.render tags enum nullable false) =
      ofAlternatives ((shownTags tags nullable).map (scalarOf enum)) := by
  have read : (shownTags tags nullable).map (ofMember ∘ Label.written enum) =
      (shownTags tags nullable).map (scalarOf enum) := by
    refine List.map_congr_left fun tag member => ?_
    obtain ⟨kind, rfl⟩ := exists_kind_of_mem_shownTags ofValues member
    exact ofMember_written listed kind
  have members := Label.split_trim_render tags enum (whole_of_ofValues ofValues) listed
    nullable false
  rw [shown_ofValues filled ofValues] at members
  unfold ofLabel
  dsimp only
  rw [members]
  split
  · have kept : ((shownTags tags nullable).map (Label.written enum)).filter (· != "undefined") =
        (shownTags tags nullable).map (Label.written enum) := by
      refine List.filter_eq_self.mpr fun member among => ?_
      obtain ⟨tag, tagMember, rfl⟩ := List.mem_map.mp among
      obtain ⟨kind, rfl⟩ := exists_kind_of_mem_shownTags ofValues tagMember
      simpa using Label.written_ne_undefined listed kind.tag_ne_undefined
    rw [kept, List.map_map, read, anyOf_eq_ofAlternatives, flatMap_alternatives]
    · rw [flatMap_alternatives]
      exact (scalarOf_pairwise enum (shownTags_nodup ofValues nullable)).imp And.right
    · rw [flatMap_alternatives]
      simp [scalarOf_ne_any]
  · rename_i notSeveral
    rw [List.length_map] at notSeveral
    have several := List.length_pos_iff.mpr (shownTags_ne_nil filled)
    obtain ⟨tag, single⟩ : ∃ tag, shownTags tags nullable = [tag] :=
      List.length_eq_one_iff.mp (by omega)
    rw [single, List.map_singleton] at members
    rw [← Label.eq_of_split_singleton (Label.trim_trim _) members, single]
    simpa [single, ofAlternatives] using read

/-- The label of tags of values, with null or without, takes the values of these tags. -/
theorem accepts_ofLabel_render {nullable : Bool} (ofValues : OfValues tags)
    (filled : tags ≠ [] ∨ nullable = true) {v : Value} :
    (ofLabel (Label.render tags none nullable false)).accepts v = true ↔
      v.tag ∈ tags ∨ (nullable = true ∧ v = .null) := by
  rw [ofLabel_render filled ofValues (by simp), accepts_ofAlternatives]
  simp [shownTags_ne_nil filled, scalarOf, Value.tag_eq_null_iff]

/-- Writing an enumeration into the label of tags of values is printing the label with it. -/
theorem ofLabel_refined {values : List String} (filled : tags ≠ []) (ofValues : OfValues tags)
    (listed : Label.Listed values) {label : String}
    (printed : label = Label.render tags none false false) :
    ofLabel (Label.render (Label.split label) (some values) ((Label.split label).contains "null")
        ((Label.split label).contains "undefined")) =
      ofAlternatives ((sortTags tags).map (scalarOf (some values))) := by
  have sortedOfValues : OfValues (sortTags tags) := fun tag member =>
    ofValues tag (mem_sortTags.mp member)
  have proper := proper_of_ofValues sortedOfValues
  have read : Label.split label = sortTags tags := printed ▸ split_render filled ofValues
  have noNull : (sortTags tags).contains "null" = false := by
    simpa using fun member => (proper "null" (mem_sortTags.mpr member)).1 rfl
  have noUndefined : (sortTags tags).contains "undefined" = false := by
    simpa using fun member => (proper "undefined" (mem_sortTags.mpr member)).2 rfl
  rw [read, noNull, noUndefined, ofLabel_render (.inl (sortTags_ne_nil filled)) sortedOfValues]
  · simp [shownTags, sortTags_sortTags]
  rintro _ ⟨⟩
  exact listed

end Schema
end SchemaInference
