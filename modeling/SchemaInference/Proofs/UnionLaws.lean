import SchemaInference.Proofs.EntryChecks
import SchemaInference.Proofs.ExportMeaning

/-! The laws of alternatives and of null. Two schemas are the same up to the order in which objects
name their fields, and then a check has the same answer. So a member that is dropped because it is
there already is missed by no check, not even by one that would have come to a key rule that cannot
be read. A union that is put together has its members once each, and may as well be put together in
two steps. -/
namespace SchemaInference.Schema

variable {s s' : Schema} {v : Value} {members schemas xs ys : List Schema}

/-! ## Sameness -/

theorem Twins.symm (twins : Twins s s') : Twins s' s := by
  refine ⟨twins.distinct', twins.distinct, ?_⟩
  induction twins using Twins.ind with
  | any => rfl
  | scalar tag => simp [same]
  | enum values => simp [same]
  | nullable inner inner' _ _ ih => simpa [same] using ih
  | union members members' _ paired =>
    rw [same, sameMembers_iff]
    exact (paired.imp fun _ _ below => below.2).flip
  | list element element' _ _ ih => simpa [same] using ih
  | record pattern rule value value' _ _ ih => simpa [same] using ih
  | object shape shape' strict _ names names' there back =>
    refine (same_object_iff names' names).mpr ⟨rfl, fun field' member' => ?_,
      fun field member => ?_⟩
    · obtain ⟨field, member, like, -, ih⟩ := back field' member'
      exact ⟨field, member, like.1.symm, like.2.1.symm, ih⟩
    · obtain ⟨field', member', like, -, ih⟩ := there field member
      exact ⟨field', member', like.1.symm, like.2.1.symm, ih⟩

theorem unreadableMember?_cons_eq_none : unreadableMember? (s :: members) v = none ↔
    s.unreadable? v = none ∧ (s.accepts v = true ∨ unreadableMember? members v = none) := by
  rw [unreadableMember?]
  cases s.unreadable? v <;> cases s.accepts v <;> simp

/-- The check of a value ends for a schema if it does for one that is the same. -/
theorem Twins.unreadable?_eq_none (twins : Twins s s') (ends : s.unreadable? v = none) :
    s'.unreadable? v = none := by
  induction twins using Twins.ind generalizing v with
  | any | scalar | enum => rfl
  | nullable inner inner' _ _ ih =>
    rw [unreadable?] at ends ⊢
    split at ends
    · rename_i isNull
      rw [if_pos isNull]
    · rename_i notNull
      rw [if_neg notNull]
      exact ih ends
  | union members members' twins paired =>
    clear twins
    rw [unreadable?] at ends ⊢
    induction paired with
    | nil => rfl
    | cons head tail rest =>
      obtain ⟨twins, ih⟩ := head
      rw [unreadableMember?_cons_eq_none] at ends ⊢
      exact ⟨ih ends.1, ends.2.imp twins.accepts_iff.mp rest⟩
  | list element element' _ _ ih =>
    rw [unreadable?, List.findSome?_eq_none_iff] at ends ⊢
    exact fun item member => ih (ends item member)
  | record pattern rule value value' _ _ ih =>
    rw [unreadable?, List.findSome?_eq_none_iff] at ends ⊢
    intro entry member
    have own := ends entry member
    cases rule with
    | none => exact ih own
    | some r =>
      dsimp only at own ⊢
      split at own
      · cases own
      · rename_i readable
        rw [if_neg readable]
        split at own
        · rename_i admitted
          rw [if_pos admitted]
          exact ih own
        · rename_i refused
          rw [if_neg refused]
  | object shape shape' strict _ names names' there back =>
    rw [unreadable?, unreadableField?_eq_none_iff] at ends ⊢
    intro field' member' item found
    obtain ⟨field, member, ⟨sameName, -⟩, -, ih⟩ := back field' member'
    exact ih (ends field member item (sameName ▸ found))

theorem Twins.check_eq_ok_nil_iff (twins : Twins s s') :
    s.check v = .ok [] ↔ s'.check v = .ok [] := by
  rw [check_eq_ok_nil, check_eq_ok_nil, twins.accepts_iff]
  exact and_congr_left fun _ => ⟨twins.unreadable?_eq_none, twins.symm.unreadable?_eq_none⟩

end SchemaInference.Schema
