import Mathlib.Data.List.Forall2
import Mathlib.Data.List.Perm.Subperm
import SchemaInference.Proofs.Acceptance

/-! Alternatives: two schemas that are the same accept the same values, so a member that is dropped
because it is there already is not missed. What remains accepts a value exactly if one of the
schemas that were put together does. -/
namespace SchemaInference.Schema

/-- No object in a schema names a field twice. Shapes are maps, so this is what makes a list of
fields one. -/
inductive DistinctNames : Schema → Prop where
  | any : DistinctNames .any
  | scalar (tag : String) : DistinctNames (.scalar tag)
  | enum (values : List String) : DistinctNames (.enum values)
  | nullable {inner : Schema} (below : DistinctNames inner) : DistinctNames (.nullable inner)
  | union (below : ∀ s ∈ members, DistinctNames s) : DistinctNames (.union members)
  | list (below : DistinctNames element) : DistinctNames (.list element)
  | record (below : DistinctNames value) : DistinctNames (.record pattern rule value)
  | object (distinct : (Assoc.keys shape).Nodup)
      (below : ∀ field ∈ shape, DistinctNames field.2.2) : DistinctNames (.object shape strict)

theorem sameMembers_iff {members others : List Schema} :
    sameMembers members others = true ↔
      List.Forall₂ (fun s s' => same s s' = true) members others := by
  induction members generalizing others with
  | nil => cases others <;> simp [sameMembers]
  | cons s rest ih => cases others <;> simp [sameMembers, ih]

theorem sameFields_iff {shape other : List (String × Bool × Schema)} :
    sameFields shape other = true ↔ ∀ field ∈ shape, ∃ s',
      Assoc.find? field.1 other = some (field.2.1, s') ∧ same field.2.2 s' = true := by
  induction shape with
  | nil => simp [sameFields]
  | cons field rest ih =>
    obtain ⟨name, optional, s⟩ := field
    rw [sameFields, Bool.and_eq_true, ih, List.forall_mem_cons]
    refine and_congr_left fun _ => ?_
    cases Assoc.find? name other with
    | none => simp
    | some found =>
      obtain ⟨optional', s'⟩ := found
      simp only [Bool.and_eq_true, beq_iff_eq, Option.some.injEq, Prod.mk.injEq]
      constructor
      · rintro ⟨rfl, equal⟩
        exact ⟨s', ⟨rfl, rfl⟩, equal⟩
      · rintro ⟨_, ⟨rfl, rfl⟩, equal⟩
        exact ⟨rfl, equal⟩

/-- A shape of distinct names that holds the fields of another one of its length has no others. -/
private theorem names_subset {shape other : List (String × Bool × Schema)}
    (distinct : (Assoc.keys shape).Nodup) (length : shape.length = other.length)
    (held : sameFields shape other = true) :
    ∀ name, name ∈ Assoc.keys shape ↔ name ∈ Assoc.keys other := by
  have subset : Assoc.keys shape ⊆ Assoc.keys other := by
    intro name member
    obtain ⟨field, fieldMember, rfl⟩ := List.mem_map.mp member
    obtain ⟨s', found, _⟩ := sameFields_iff.mp held field fieldMember
    exact Assoc.mem_keys_of_mem (Assoc.mem_of_find? found)
  have covered : List.Perm (Assoc.keys shape) (Assoc.keys other) :=
    (List.subperm_of_subset distinct subset).perm_of_length_le (by simp [Assoc.keys, length])
  exact fun name => covered.mem_iff

/-- Fields of the same name with the same schema, both of which may be missing or neither. -/
def SameField (field other : String × Bool × Schema) : Prop :=
  field.1 = other.1 ∧ field.2.1 = other.2.1 ∧ same field.2.2 other.2.2 = true

/-- Shapes of distinct names have the same names if each field of either is one of the other. -/
theorem keys_perm_of_sameFields {shape shape' : List (String × Bool × Schema)}
    (names : (Assoc.keys shape).Nodup) (names' : (Assoc.keys shape').Nodup)
    (there : ∀ field ∈ shape, ∃ field' ∈ shape', SameField field field')
    (back : ∀ field' ∈ shape', ∃ field ∈ shape, SameField field field') :
    List.Perm (Assoc.keys shape) (Assoc.keys shape') := by
  refine (List.perm_ext_iff_of_nodup names names').mpr fun name => ⟨?_, ?_⟩
  · intro among
    obtain ⟨field, member, rfl⟩ := List.mem_map.mp among
    obtain ⟨field', member', sameName, -⟩ := there field member
    exact List.mem_map.mpr ⟨field', member', sameName.symm⟩
  · intro among
    obtain ⟨field', member', rfl⟩ := List.mem_map.mp among
    obtain ⟨field, member, sameName, -⟩ := back field' member'
    exact List.mem_map.mpr ⟨field, member, sameName⟩

/-- Two objects are the same if each field of either is one of the other, wherever it stands. -/
theorem same_object_iff {shape shape' : List (String × Bool × Schema)} {strict strict' : Bool}
    (names : (Assoc.keys shape).Nodup) (names' : (Assoc.keys shape').Nodup) :
    same (object shape strict) (object shape' strict') = true ↔ strict = strict' ∧
      (∀ field ∈ shape, ∃ field' ∈ shape', SameField field field') ∧
      ∀ field' ∈ shape', ∃ field ∈ shape, SameField field field' := by
  simp only [same, Bool.and_eq_true, beq_iff_eq, and_assoc]
  refine and_congr_right fun _ => ⟨?_, ?_⟩
  · rintro ⟨length, held⟩
    refine ⟨fun field member => ?_, fun field' member' => ?_⟩
    · obtain ⟨s', found, equal⟩ := sameFields_iff.mp held field member
      exact ⟨_, Assoc.mem_of_find? found, rfl, rfl, equal⟩
    · obtain ⟨field, member, sameName⟩ := List.mem_map.mp
        ((names_subset names length held field'.1).mpr (List.mem_map_of_mem member'))
      obtain ⟨s', found, equal⟩ := sameFields_iff.mp held field member
      have own := Assoc.find?_of_nodup names' (show (field'.1, field'.2) ∈ shape' from member')
      rw [← sameName, found, Option.some.injEq] at own
      exact ⟨field, member, sameName, own ▸ rfl, own ▸ equal⟩
  · rintro ⟨there, back⟩
    have covered := keys_perm_of_sameFields names names' there back
    have length : shape.length = shape'.length := by
      simpa [Assoc.keys] using covered.length_eq
    refine ⟨length, sameFields_iff.mpr fun field member => ?_⟩
    obtain ⟨⟨name, optional, s'⟩, member', sameName, sameOptional, equal⟩ := there field member
    refine ⟨s', ?_, equal⟩
    rw [sameName, sameOptional]
    exact Assoc.find?_of_nodup names' member'

/-- Schemas that are the same, no object in which names a field twice. -/
structure Twins (s s' : Schema) : Prop where
  distinct : s.DistinctNames
  distinct' : s'.DistinctNames
  equal : same s s' = true

/-- Induction over two schemas that are the same: so are their members in order, and their fields
under each name. -/
@[elab_as_elim]
theorem Twins.ind {motive : ∀ s s', Twins s s' → Prop}
    (any : ∀ twins, motive .any .any twins)
    (scalar : ∀ tag twins, motive (.scalar tag) (.scalar tag) twins)
    (enum : ∀ values twins, motive (.enum values) (.enum values) twins)
    (nullable : ∀ inner inner' twins (below : Twins inner inner'), motive inner inner' below →
      motive (.nullable inner) (.nullable inner') twins)
    (union : ∀ members members' twins,
      List.Forall₂ (fun s s' => ∃ below : Twins s s', motive s s' below) members members' →
      motive (.union members) (.union members') twins)
    (list : ∀ element element' twins (below : Twins element element'),
      motive element element' below → motive (.list element) (.list element') twins)
    (record : ∀ pattern rule value value' twins (below : Twins value value'),
      motive value value' below →
      motive (.record pattern rule value) (.record pattern rule value') twins)
    (object : ∀ shape shape' strict twins, (Assoc.keys shape).Nodup → (Assoc.keys shape').Nodup →
      (∀ field ∈ shape, ∃ field' ∈ shape', SameField field field' ∧
        ∃ below : Twins field.2.2 field'.2.2, motive field.2.2 field'.2.2 below) →
      (∀ field' ∈ shape', ∃ field ∈ shape, SameField field field' ∧
        ∃ below : Twins field.2.2 field'.2.2, motive field.2.2 field'.2.2 below) →
      motive (.object shape strict) (.object shape' strict) twins)
    {s s' : Schema} (twins : Twins s s') : motive s s' twins := by
  induction s using Schema.ind generalizing s' with
  | any =>
    have equal := twins.equal
    cases s' <;> simp [same] at equal
    exact any twins
  | scalar tag =>
    have equal := twins.equal
    cases s' <;> simp [same] at equal
    subst equal
    exact scalar tag twins
  | enum values =>
    have equal := twins.equal
    cases s' <;> simp [same] at equal
    subst equal
    exact enum values twins
  | nullable inner ih =>
    have equal := twins.equal
    cases s' <;> simp [same] at equal
    rename_i inner'
    cases twins.distinct with
    | nullable own =>
    cases twins.distinct' with
    | nullable own' => exact nullable inner inner' twins ⟨own, own', equal⟩ (ih ⟨own, own', equal⟩)
  | union members ih =>
    have equal := twins.equal
    cases s' <;> simp [same] at equal
    rename_i members'
    cases twins.distinct with
    | union own =>
    cases twins.distinct' with
    | union own' =>
      refine union members members' twins ?_
      have paired := sameMembers_iff.mp equal
      clear equal twins
      induction paired with
      | nil => exact .nil
      | cons head tail rest =>
        obtain ⟨first, later⟩ := List.forall_mem_cons.mp ih
        obtain ⟨ownFirst, ownLater⟩ := List.forall_mem_cons.mp own
        obtain ⟨ownFirst', ownLater'⟩ := List.forall_mem_cons.mp own'
        exact .cons ⟨⟨ownFirst, ownFirst', head⟩, first _⟩ (rest later ownLater ownLater')
  | list element ih =>
    have equal := twins.equal
    cases s' <;> simp [same] at equal
    rename_i element'
    cases twins.distinct with
    | list own =>
    cases twins.distinct' with
    | list own' => exact list element element' twins ⟨own, own', equal⟩ (ih ⟨own, own', equal⟩)
  | record pattern rule value ih =>
    have equal := twins.equal
    cases s' <;> simp [same] at equal
    obtain ⟨⟨rfl, rfl⟩, equal⟩ := equal
    cases twins.distinct with
    | record own =>
    cases twins.distinct' with
    | record own' => exact record _ _ value _ twins ⟨own, own', equal⟩ (ih ⟨own, own', equal⟩)
  | object shape strict ih =>
    have equal := twins.equal
    cases s' with
    | object shape' strict' =>
      cases twins.distinct with
      | object names own =>
      cases twins.distinct' with
      | object names' own' =>
        obtain ⟨rfl, there, back⟩ := (same_object_iff names names').mp equal
        refine object shape shape' strict twins names names' ?_ ?_
        · intro field member
          obtain ⟨field', member', like⟩ := there field member
          exact ⟨field', member', like, ⟨own field member, own' field' member', like.2.2⟩,
            ih field member _⟩
        · intro field' member'
          obtain ⟨field, member, like⟩ := back field' member'
          exact ⟨field, member, like, ⟨own field member, own' field' member', like.2.2⟩,
            ih field member _⟩
    | _ => simp [same] at equal

/-- Schemas that are the same accept the same values. -/
theorem Twins.accepts_iff {s s' : Schema} {v : Value} (twins : Twins s s') :
    s.accepts v = true ↔ s'.accepts v = true := by
  induction twins using Twins.ind generalizing v with
  | any | scalar | enum => exact Iff.rfl
  | nullable inner inner' _ _ ih => simp only [accepts_nullable, ih]
  | union members members' twins paired =>
    clear twins
    simp only [accepts_union]
    induction paired with
    | nil => simp
    | cons head tail rest =>
      obtain ⟨-, first⟩ := head
      simpa only [List.mem_cons, exists_eq_or_imp, first] using or_congr_right rest
  | list element element' _ _ ih => simp only [accepts_list, ih]
  | record pattern rule value value' _ _ ih => simp only [accepts_record, ih]
  | object shape shape' strict twins names names' there back =>
    obtain ⟨-, sameThere, sameBack⟩ := (same_object_iff names names').mp twins.equal
    have sameNames (name : String) : name ∈ Assoc.keys shape ↔ name ∈ Assoc.keys shape' :=
      (keys_perm_of_sameFields names names' sameThere sameBack).mem_iff
    simp only [accepts_object, sameNames]
    refine exists_congr fun entries => and_congr_right fun _ => and_congr_left fun _ => ?_
    -- Every field has its counterpart under the same name, in either direction.
    constructor
    · intro accepted field' member'
      obtain ⟨field, member, ⟨sameName, sameOptional, -⟩, -, ih⟩ := back field' member'
      rw [← sameName, ← sameOptional]
      have entry := accepted field member
      exact ⟨fun item found => ih.mp (entry.1 item found), entry.2⟩
    · intro accepted field member
      obtain ⟨field', member', ⟨sameName, sameOptional, -⟩, -, ih⟩ := there field member
      rw [sameName, sameOptional]
      have entry := accepted field' member'
      exact ⟨fun item found => ih.mpr (entry.1 item found), entry.2⟩

theorem accepts_alternatives {s : Schema} {v : Value} :
    s.accepts v = true ↔ ∃ member ∈ s.alternatives, member.accepts v = true := by
  cases s with
  | union members => exact accepts_union
  | _ => simp only [alternatives, List.mem_singleton, exists_eq_left]

theorem alternatives_eq_nil_iff {s : Schema} : s.alternatives = [] ↔ s = .union [] := by
  cases s <;> simp [alternatives]

theorem isAny_iff {s : Schema} : s.isAny = true ↔ s = .any := by
  cases s <;> simp [isAny]

theorem distinctNames_of_alternative {s member : Schema} (distinct : s.DistinctNames)
    (among : member ∈ s.alternatives) : member.DistinctNames := by
  cases distinct with
  | union below => exact below member among
  | _ => cases List.mem_singleton.mp among; constructor <;> assumption

theorem accepts_ofAlternatives {members : List Schema} {v : Value} :
    (ofAlternatives members).accepts v = true ↔
      members = [] ∨ ∃ s ∈ members, s.accepts v = true := by
  match members with
  | [] => simp [ofAlternatives]
  | [s] => simp [ofAlternatives]
  | first :: second :: rest => simp [ofAlternatives]

theorem mem_addDistinct {members : List Schema} {s member : Schema}
    (among : member ∈ addDistinct members s) : member ∈ members ∨ member = s := by
  unfold addDistinct at among
  split at among
  · exact .inl among
  · simpa using among

theorem mem_foldl_addDistinct {done members : List Schema} {member : Schema}
    (among : member ∈ members.foldl addDistinct done) : member ∈ done ∨ member ∈ members := by
  induction members generalizing done with
  | nil => exact .inl among
  | cons s rest ih =>
    rcases ih among with earlier | later
    · rcases mem_addDistinct earlier with earlier | rfl
      · exact .inl earlier
      · exact .inr List.mem_cons_self
    · exact .inr (List.mem_cons_of_mem _ later)

private theorem accepts_addDistinct {members : List Schema} {s : Schema} {v : Value}
    (distinct : ∀ member ∈ members, member.DistinctNames) (sDistinct : s.DistinctNames) :
    (∃ member ∈ addDistinct members s, member.accepts v = true) ↔
      (∃ member ∈ members, member.accepts v = true) ∨ s.accepts v = true := by
  unfold addDistinct
  split
  · rename_i there
    obtain ⟨twin, twinMember, equal⟩ := List.any_eq_true.mp there
    have twins : Twins s twin := ⟨sDistinct, distinct twin twinMember, equal⟩
    refine ⟨.inl, ?_⟩
    rintro (accepted | accepted)
    · exact accepted
    · exact ⟨twin, twinMember, twins.accepts_iff.mp accepted⟩
  · simp [List.mem_append, or_and_right, exists_or]

private theorem accepts_foldl_addDistinct {done members : List Schema} {v : Value}
    (doneDistinct : ∀ member ∈ done, member.DistinctNames)
    (distinct : ∀ member ∈ members, member.DistinctNames) :
    (∃ member ∈ members.foldl addDistinct done, member.accepts v = true) ↔
      (∃ member ∈ done, member.accepts v = true) ∨
        ∃ member ∈ members, member.accepts v = true := by
  induction members generalizing done with
  | nil => simp
  | cons s rest ih =>
    obtain ⟨sDistinct, restDistinct⟩ := List.forall_mem_cons.mp distinct
    have nextDistinct : ∀ member ∈ addDistinct done s, member.DistinctNames := by
      intro member among
      rcases mem_addDistinct among with earlier | rfl
      · exact doneDistinct member earlier
      · exact sDistinct
    rw [List.foldl_cons, ih nextDistinct restDistinct,
      accepts_addDistinct doneDistinct sDistinct]
    simp only [List.mem_cons, exists_eq_or_imp, or_assoc]

theorem foldl_addDistinct_ne_nil {done members : List Schema}
    (filled : done ≠ [] ∨ members ≠ []) : members.foldl addDistinct done ≠ [] := by
  induction members generalizing done with
  | nil => simpa using filled
  | cons s rest ih =>
    refine ih (.inl ?_)
    unfold addDistinct
    split
    · rename_i there
      rintro rfl
      cases there
    · simp

/-- Putting schemas together accepts what one of them accepts. No schemas at all stand for any. -/
theorem accepts_anyOf {schemas : List Schema} {v : Value}
    (distinct : ∀ s ∈ schemas, s.DistinctNames) (filled : ∀ s ∈ schemas, s ≠ .union []) :
    (anyOf schemas).accepts v = true ↔ schemas = [] ∨ ∃ s ∈ schemas, s.accepts v = true := by
  have membersDistinct : ∀ member ∈ schemas.flatMap alternatives, member.DistinctNames := by
    intro member among
    obtain ⟨s, sMember, among⟩ := List.mem_flatMap.mp among
    exact distinctNames_of_alternative (distinct s sMember) among
  have opened : (∃ member ∈ schemas.flatMap alternatives, member.accepts v = true) ↔
      ∃ s ∈ schemas, s.accepts v = true := by
    constructor
    · rintro ⟨member, among, accepted⟩
      obtain ⟨s, sMember, among⟩ := List.mem_flatMap.mp among
      exact ⟨s, sMember, accepts_alternatives.mpr ⟨member, among, accepted⟩⟩
    · rintro ⟨s, sMember, accepted⟩
      obtain ⟨member, among, accepted⟩ := accepts_alternatives.mp accepted
      exact ⟨member, List.mem_flatMap.mpr ⟨s, sMember, among⟩, accepted⟩
  unfold anyOf
  dsimp only
  split
  · rename_i anything
    obtain ⟨member, among, isAny⟩ := List.any_eq_true.mp anything
    have accepted := opened.mp ⟨member, among, isAny_iff.mp isAny ▸ accepts_any v⟩
    exact ⟨fun _ => .inr accepted, fun _ => accepts_any v⟩
  · rw [accepts_ofAlternatives, accepts_foldl_addDistinct (by simp) membersDistinct, opened]
    by_cases none : schemas = []
    · subst none
      simp
    · obtain ⟨s, sMember⟩ := List.exists_mem_of_ne_nil schemas none
      have nonempty : schemas.flatMap alternatives ≠ [] := by
        intro empty
        exact filled s sMember
          (alternatives_eq_nil_iff.mp (List.flatMap_eq_nil_iff.mp empty s sMember))
      simp [none, foldl_addDistinct_ne_nil (.inr nonempty)]

/-- What holds of any, of every alternative, and of unions of several of them, holds of schemas that
are put together. -/
theorem anyOf_ind {P Q : Schema → Prop} {schemas : List Schema} (any : P .any)
    (one : ∀ s, Q s → P s)
    (several : ∀ members, 2 ≤ members.length → (∀ s ∈ members, Q s) → P (.union members))
    (among : ∀ s ∈ schemas, ∀ member ∈ s.alternatives, Q member) : P (anyOf schemas) := by
  have kept : ∀ member ∈ (schemas.flatMap alternatives).foldl addDistinct [], Q member := by
    intro member there
    rcases mem_foldl_addDistinct there with none | there
    · cases none
    · obtain ⟨s, sMember, there⟩ := List.mem_flatMap.mp there
      exact among s sMember member there
  unfold anyOf
  dsimp only
  split
  · exact any
  · match found : (schemas.flatMap alternatives).foldl addDistinct [] with
    | [] => exact any
    | [s] => exact one s (kept s (by simp [found]))
    | first :: second :: rest =>
      exact several _ (by simp) fun s member => kept s (found ▸ member)

theorem anyOf_distinctNames {schemas : List Schema} (distinct : ∀ s ∈ schemas, s.DistinctNames) :
    (anyOf schemas).DistinctNames :=
  anyOf_ind .any (fun _ own => own) (fun _ _ => .union)
    fun s member _ among => distinctNames_of_alternative (distinct s member) among

theorem foldl_addDistinct_of_apart {done members : List Schema}
    (apart : (done ++ members).Pairwise fun earlier later => same later earlier = false) :
    members.foldl addDistinct done = done ++ members := by
  induction members generalizing done with
  | nil => simp
  | cons s rest ih =>
    have new : ¬ done.any (same s) = true := by
      intro there
      obtain ⟨twin, twinMember, equal⟩ := List.any_eq_true.mp there
      have different := (List.pairwise_append.mp apart).2.2 twin twinMember s List.mem_cons_self
      exact absurd (equal.symm.trans different) (by decide)
    have added : addDistinct done s = done ++ [s] := by rw [addDistinct, if_neg new]
    rw [List.foldl_cons, added, ih (by simpa using apart), List.append_assoc]
    rfl

/-- Alternatives of which no two are the same, and none accepts anything, are all kept. -/
theorem anyOf_eq_ofAlternatives {schemas : List Schema}
    (apart : (schemas.flatMap alternatives).Pairwise
      fun earlier later => same later earlier = false)
    (proper : ∀ member ∈ schemas.flatMap alternatives, member ≠ .any) :
    anyOf schemas = ofAlternatives (schemas.flatMap alternatives) := by
  have noAny : ¬ (schemas.flatMap alternatives).any isAny = true := by
    intro anything
    obtain ⟨member, among, isAny⟩ := List.any_eq_true.mp anything
    exact proper member among (isAny_iff.mp isAny)
  rw [anyOf, if_neg noAny, foldl_addDistinct_of_apart (by simpa using apart), List.nil_append]

/-- Unions that have been opened: none is empty, and none has another one among its members. -/
def Opened (s : Schema) : Prop :=
  s ≠ .union [] ∧ ∀ member ∈ s.alternatives, ∀ members, member ≠ .union members

theorem opened_of_not_union {s : Schema} (other : ∀ members, s ≠ .union members) : s.Opened := by
  refine ⟨other [], fun member among => ?_⟩
  have alone : s.alternatives = [s] := by
    cases s with
    | union members => exact absurd rfl (other members)
    | _ => rfl
  rw [alone, List.mem_singleton] at among
  exact among ▸ other

theorem opened_anyOf {schemas : List Schema} (opened : ∀ s ∈ schemas, s.Opened) :
    (anyOf schemas).Opened := by
  refine anyOf_ind (Q := fun member => ∀ members, member ≠ .union members)
    (opened_of_not_union (by simp)) (fun _ => opened_of_not_union) (fun members several kept => ?_)
    fun s member => (opened s member).2
  refine ⟨?_, kept⟩
  rintro ⟨⟩
  simp at several

theorem opened_orNull {s : Schema} (opened : s.Opened) : s.orNull.Opened := by
  unfold orNull
  split
  · exact opened
  · exact opened_of_not_union (by simp)

private theorem eq_null_of_same {s : Schema} (equal : same null s = true) : s = null := by
  cases s <;> simp [null, same] at equal
  exact equal ▸ rfl

private theorem accepts_null_of_admitsNull {s : Schema} (admits : s.admitsNull = true) :
    s.accepts .null = true := by
  cases s with
  | any => rfl
  | scalar tag =>
    obtain rfl := beq_iff_eq.mp admits
    decide
  | nullable inner => simp
  | union members =>
    obtain ⟨member, among, equal⟩ := List.any_eq_true.mp admits
    rw [eq_null_of_same equal] at among
    exact accepts_union.mpr ⟨null, among, by decide⟩
  | _ => cases admits

/-- Null is let in beside what was accepted, and nothing else is. -/
theorem accepts_orNull {s : Schema} {v : Value} :
    s.orNull.accepts v = true ↔ v = .null ∨ s.accepts v = true := by
  unfold orNull
  split
  · rename_i admits
    refine ⟨.inr, ?_⟩
    rintro (rfl | accepted)
    · exact accepts_null_of_admitsNull admits
    · exact accepted
  · exact accepts_nullable

theorem orNull_distinctNames {s : Schema} (distinct : s.DistinctNames) :
    s.orNull.DistinctNames := by
  unfold orNull
  split
  · exact distinct
  · exact .nullable distinct

/-! ## Members that are apart -/

theorem same_of_kindName_ne {s s' : Schema} (apart : s.kindName ≠ s'.kindName) :
    same s s' = false := by
  cases s <;> cases s' <;> first | rfl | exact absurd rfl apart

/-- Two schemas of which neither is the same as the other. -/
def Differ (s other : Schema) : Prop := same s other = false ∧ same other s = false

theorem differ_of_kindName_ne {s s' : Schema} (apart : s.kindName ≠ s'.kindName) : Differ s s' :=
  ⟨same_of_kindName_ne apart, same_of_kindName_ne apart.symm⟩

/-- Members of which no two are the same, and of which none is a union or accepts null on its face.
-/
structure Apart (members : List Schema) : Prop where
  pairwise : members.Pairwise fun earlier later => same later earlier = false
  closed : ∀ member ∈ members, member.admitsNull = false
  simple : ∀ member ∈ members, ∀ others, member ≠ .union others

theorem alternatives_ofAlternatives {members : List Schema}
    (simple : ∀ member ∈ members, ∀ others, member ≠ .union others) (filled : members ≠ []) :
    (ofAlternatives members).alternatives = members := by
  match members with
  | [] => contradiction
  | [s] =>
    have simple := simple s List.mem_cons_self
    cases s with
    | union others => exact absurd rfl (simple others)
    | _ => rfl
  | first :: second :: rest => rfl

theorem anyOf_of_apart {schemas : List Schema} (apart : Apart (schemas.flatMap alternatives)) :
    anyOf schemas = ofAlternatives (schemas.flatMap alternatives) := by
  refine anyOf_eq_ofAlternatives apart.pairwise fun member among => ?_
  rintro rfl
  exact absurd (apart.closed _ among) (by decide)

theorem admitsNull_ofAlternatives {members : List Schema} (apart : Apart members)
    (filled : members ≠ []) : (ofAlternatives members).admitsNull = false := by
  match members with
  | [] => contradiction
  | [s] => exact apart.closed s List.mem_cons_self
  | first :: second :: rest =>
    refine Bool.eq_false_iff.mpr fun admits => ?_
    obtain ⟨member, among, equal⟩ := List.any_eq_true.mp admits
    have admits := apart.closed member among
    rw [eq_null_of_same equal] at admits
    exact absurd admits (by decide)

theorem orNull_ofAlternatives {members : List Schema} (apart : Apart members)
    (filled : members ≠ []) :
    (ofAlternatives members).orNull = .nullable (ofAlternatives members) := by
  rw [orNull, admitsNull_ofAlternatives apart filled]
  rfl

end SchemaInference.Schema
