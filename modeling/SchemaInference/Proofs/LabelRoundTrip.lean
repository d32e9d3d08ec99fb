import SchemaInference.Proofs.ScalarLabels
import SchemaInference.Proofs.Synthesis

/-! Labels there and back. The label of some tags falls into those tags again, the higher ranks
first, with one enumeration in place of the strings; the enumeration gives its values back in order;
and the schema of the label accepts the values of the tags, of the strings only those enumerated. -/
namespace SchemaInference

/-! ## Ranks -/

/-- The kinds whose tags have a rank. -/
def rankedKinds : List Kind :=
  [.date, .regexp, .error, .map, .set, .deferred, .buffer, .object, .array, .string, .number,
    .boolean]

theorem exists_rankedKind {tag : String} (ranked : 0 < rank tag) :
    ∃ kind ∈ rankedKinds, tag = kind.tag := by
  unfold rank at ranked
  split at ranked <;> first | decide | cases ranked

/-- No two tags share a rank. -/
theorem eq_of_rank_eq {tag other : String} (ranked : 0 < rank tag)
    (same : rank tag = rank other) : tag = other := by
  have apart : ∀ a ∈ rankedKinds, ∀ b ∈ rankedKinds, rank a.tag = rank b.tag → a = b := by decide
  obtain ⟨kind, member, rfl⟩ := exists_rankedKind ranked
  obtain ⟨otherKind, otherMember, rfl⟩ := exists_rankedKind (same ▸ ranked)
  rw [apart kind member otherKind otherMember same]

theorem ofValues_of_ranked {tags : List String} (ranked : ∀ tag ∈ tags, 0 < rank tag) :
    OfValues tags := by
  have notNull : ∀ kind ∈ rankedKinds, kind ≠ .null := by decide
  intro tag member
  obtain ⟨kind, among, rfl⟩ := exists_rankedKind (ranked tag member)
  exact ⟨kind, notNull kind among, rfl⟩

theorem insertRanked_descending {tag : String} {row : List String}
    (apart : ∀ other ∈ row, rank tag ≠ rank other)
    (descending : row.Pairwise fun a b => rank b < rank a) :
    (insertRanked tag row).Pairwise fun a b => rank b < rank a := by
  induction row with
  | nil => simp [insertRanked]
  | cons head rest ih =>
    obtain ⟨headApart, restApart⟩ := List.forall_mem_cons.mp apart
    obtain ⟨below, restDescending⟩ := List.pairwise_cons.mp descending
    have before : standsBefore tag head = true ↔ rank head < rank tag := by
      simp [standsBefore, headApart]
    rw [insertRanked]
    split
    · rename_i first
      have above := before.mp first
      refine List.pairwise_cons.mpr ⟨?_, descending⟩
      intro other member
      rcases List.mem_cons.mp member with rfl | member
      · exact above
      · exact Nat.lt_trans (below other member) above
    · rename_i notFirst
      refine List.pairwise_cons.mpr ⟨?_, ih restApart restDescending⟩
      intro other member
      rcases List.mem_cons.mp ((insertRanked_perm tag rest).mem_iff.mp member) with rfl | member
      · have notAbove := mt before.mpr notFirst
        omega
      · exact below other member

/-- The ranks of tags go down in a label. -/
theorem sortTags_descending {tags : List String} (ranked : ∀ tag ∈ tags, 0 < rank tag) :
    (sortTags tags).Pairwise fun a b => rank b < rank a := by
  have rankedRow : ∀ tag ∈ ascending tags, 0 < rank tag := by simpa using ranked
  have distinct := ascending_nodup tags
  unfold sortTags
  generalize ascending tags = row at rankedRow distinct
  induction row with
  | nil => exact .nil
  | cons head rest ih =>
    obtain ⟨headRanked, restRanked⟩ := List.forall_mem_cons.mp rankedRow
    obtain ⟨fresh, restDistinct⟩ := List.nodup_cons.mp distinct
    refine insertRanked_descending ?_ (ih restRanked restDistinct)
    intro other member same
    obtain rfl := eq_of_rank_eq headRanked same
    exact fresh ((foldr_insertRanked_perm rest).mem_iff.mp member)

namespace Label

/-- Words of letters can be enumerated. -/
theorem listed_of_words {values : List String} (filled : values ≠ [])
    (words : ∀ value ∈ values, ∀ c ∈ value.toList, c.isAlpha = true) : Listed values := by
  refine ⟨filled, fun value member => Casing.listable fun c among => ?_⟩
  have letter := words value member c among
  rcases (Bool.or_eq_true ..).mp letter with upper | lower
  · have upper : 'A' ≤ c ∧ c ≤ 'Z' := of_decide_eq_true upper
    exact .inr (by simpa [Casing.isUpper] using upper)
  · have lower : 'a' ≤ c ∧ c ≤ 'z' :=
      ((Bool.and_eq_true ..).mp lower).imp of_decide_eq_true of_decide_eq_true
    exact .inl (by simpa [Casing.isLower] using lower)

variable {tags : List String} {enum : Option (List String)}

/-- The tag of a kind means the values of that kind, and of the strings only those enumerated. -/
theorem memberMeans_tag (kind : Kind) {v : Value} :
    MemberMeans enum kind.tag v ↔ v.tag = kind.tag ∧
      ∀ values, enum = some values → ∀ text, v = .text text → text ∈ values := by
  by_cases isString : kind.tag = "string"
  · rw [isString, MemberMeans, if_pos rfl, Value.tag_eq_string_iff]
    constructor
    · rintro ⟨text, rfl, listed⟩
      refine ⟨⟨text, rfl⟩, ?_⟩
      rintro values known _ ⟨⟩
      exact listed values known
    · rintro ⟨⟨text, rfl⟩, listed⟩
      exact ⟨text, rfl, fun values known => listed values known text rfl⟩
  · have bare : enumValues? kind.tag = none := enumValues?_of_bare (by cases kind <;> rfl)
    have closed : kind.tag ∉ Schema.openWords := by cases kind <;> decide
    rw [MemberMeans, if_neg isString, bare]
    simp only [closed, false_or]
    refine (and_iff_left_of_imp ?_).symm
    rintro same values - text rfl
    exact absurd same.symm isString

theorem split_render_of_ranked (filled : tags ≠ []) (ranked : ∀ tag ∈ tags, 0 < rank tag)
    (listed : ∀ values, enum = some values → Listed values) (nullable optional : Bool) :
    split (render tags enum nullable optional) = (sortTags tags).map (written enum) ++
      (if nullable then ["null"] else []) ++ (if optional then ["undefined"] else []) := by
  have ofValues := ofValues_of_ranked ranked
  have shownWhole := whole_shown (Schema.whole_of_ofValues ofValues) listed nullable optional
  rw [render_eq, split_intercalate _ (shown_ne_nil _ _ _ _) shownWhole, shown,
    Schema.members_ofValues ofValues, if_neg (by simpa using Schema.sortTags_ne_nil filled)]

theorem check_ofLabel_of_ranked (filled : tags ≠ []) (ranked : ∀ tag ∈ tags, 0 < rank tag)
    (listed : ∀ values, enum = some values → Listed values) {nullable optional : Bool} {v : Value} :
    (Schema.ofLabel (render tags enum nullable optional)).check v = .ok [] ↔
      (v = .null ∧ nullable = true) ∨ (v.tag ∈ tags ∧
        ∀ values, enum = some values → ∀ text, v = .text text → text ∈ values) := by
  have ofValues := ofValues_of_ranked ranked
  have proper := Schema.proper_of_ofValues ofValues
  obtain ⟨first, among⟩ := List.exists_mem_of_ne_nil tags filled
  rw [Schema.check_eq_ok_nil_iff (Schema.ofLabel_readable _), accepts_ofLabel,
    means_render (Schema.whole_of_ofValues ofValues) listed ⟨first, among, proper first among⟩,
    or_comm, and_comm]
  refine or_congr_right ⟨?_, ?_⟩
  · rintro ⟨tag, member, -, means⟩
    obtain ⟨kind, -, rfl⟩ := ofValues tag member
    obtain ⟨same, enumerated⟩ := (memberMeans_tag kind).mp means
    exact ⟨same ▸ member, enumerated⟩
  · rintro ⟨member, enumerated⟩
    exact ⟨v.tag, member, proper _ member, (memberMeans_tag v.kind).mpr ⟨rfl, enumerated⟩⟩

/-- The label of ranked tags falls into them, the higher ranks first, with the enumeration in place
of the strings; the enumeration is read as its values in order; and the schema of the label accepts
null if the label says so, and the values of the tags, of the strings only those enumerated. -/
theorem label_read_back (filled : tags ≠ []) (ranked : ∀ tag ∈ tags, 0 < rank tag)
    (words : ∀ values, enum = some values →
      values ≠ [] ∧ ∀ value ∈ values, ∀ c ∈ value.toList, c.isAlpha = true)
    (nullable optional : Bool) :
    (∃ row : List String, row.Pairwise (fun a b => rank b < rank a) ∧
        (∀ tag, tag ∈ row ↔ tag ∈ tags) ∧
        split (render tags enum nullable optional) = row.map (written enum) ++
          (if nullable then ["null"] else []) ++ (if optional then ["undefined"] else [])) ∧
      (∀ values, enum = some values → ∃ row : List String, row.Pairwise (· < ·) ∧
        (∀ value, value ∈ row ↔ value ∈ values) ∧
        written enum "string" = "enum(" ++ bar.intercalate row ++ ")" ∧
        enumValues? (written enum "string") = some row) ∧
      ∀ v, (Schema.ofLabel (render tags enum nullable optional)).check v = .ok [] ↔
        (v = .null ∧ nullable = true) ∨ (v.tag ∈ tags ∧
          ∀ values, enum = some values → ∀ text, v = .text text → text ∈ values) := by
  have listed : ∀ values, enum = some values → Listed values :=
    fun values known => listed_of_words (words values known).1 (words values known).2
  refine ⟨⟨sortTags tags, sortTags_descending ranked, fun tag => mem_sortTags, ?_⟩, ?_, fun v => ?_⟩
  · exact split_render_of_ranked filled ranked listed nullable optional
  · rintro values rfl
    obtain ⟨nonempty, listable⟩ := listed values rfl
    exact ⟨ascending values, ascending_sorted values, fun value => mem_ascending, rfl,
      enumValues?_ofEnum nonempty listable⟩
  · exact check_ofLabel_of_ranked filled ranked listed

/-- The label of numbers and of two enumerated words, beside null, where a key may be missing. -/
theorem label_of_switch_read_back :
    (["number", "string"] ≠ [] ∧ (∀ tag ∈ ["number", "string"], 0 < rank tag) ∧
      ["on", "off"] ≠ [] ∧ ∀ value ∈ ["on", "off"], ∀ c ∈ value.toList, c.isAlpha = true) ∧
    (∃ row : List String, row.Pairwise (fun a b => rank b < rank a) ∧
        (∀ tag, tag ∈ row ↔ tag ∈ ["number", "string"]) ∧
        split "enum(off | on) | number | null | undefined" =
          row.map (written (some ["on", "off"])) ++ ["null"] ++ ["undefined"]) ∧
      (∃ row : List String, row.Pairwise (· < ·) ∧ (∀ value, value ∈ row ↔ value ∈ ["on", "off"]) ∧
        "enum(off | on)" = "enum(" ++ bar.intercalate row ++ ")" ∧
        enumValues? "enum(off | on)" = some row) ∧
      ∀ v, (Schema.ofLabel "enum(off | on) | number | null | undefined").check v = .ok [] ↔
        v = .null ∨
          (v.tag ∈ ["number", "string"] ∧ ∀ text, v = .text text → text ∈ ["on", "off"]) := by
  have ranked : ∀ tag ∈ ["number", "string"], 0 < rank tag := by decide
  have words : ∀ value ∈ ["on", "off"], ∀ c ∈ value.toList, c.isAlpha = true := by simp
  have printed : render ["number", "string"] (some ["on", "off"]) true true =
      "enum(off | on) | number | null | undefined" := by decide +kernel
  have enumerated : written (some ["on", "off"]) "string" = "enum(off | on)" := by decide +kernel
  have known : ∀ values, some ["on", "off"] = some values →
      values ≠ [] ∧ ∀ value ∈ values, ∀ c ∈ value.toList, c.isAlpha = true := by
    rintro _ ⟨⟩
    exact ⟨by simp, words⟩
  obtain ⟨members, values, schema⟩ := label_read_back (by simp) ranked known true true
  rw [printed] at members schema
  refine ⟨⟨by simp, ranked, by simp, words⟩, members, ?_, ?_⟩
  · rw [← enumerated]
    exact values _ rfl
  · simpa using schema

end Label
end SchemaInference
