import Mathlib.Data.List.Forall2
import Mathlib.Data.List.Pairwise
import SchemaInference.Value.Same

/-! Values that count as one. Being told apart by nothing is symmetric and transitive, so whether a
list holds two values that are told apart does not depend on the order in which they stand, and one
that counts as itself may come as often as it likes. -/
namespace SchemaInference

theorem Moment.same_symm {m m' : Moment} (equal : m.same m' = true) : m'.same m = true := by
  unfold same at equal
  split at equal <;> simp_all [same]

theorem Moment.same_trans {m m' m'' : Moment} (first : m.same m' = true)
    (second : m'.same m'' = true) : m.same m'' = true := by
  unfold same at first
  split at first <;> unfold same at second <;> split at second <;> simp_all [same]

namespace Leaf
variable {l l' l'' : Leaf}

theorem readsLike_iff :
    l.readsLike l' = true ↔
      ∃ readings, l.readings? = some readings ∧ l'.readings? = some readings := by
  unfold readsLike
  cases l.readings? <;> cases l'.readings? <;> simp [eq_comm]

/-- What is read like a buffer or a window is one itself. -/
theorem same_eq_readsLike (readable : l.readings?.isSome = true) : l.same l' = l.readsLike l' := by
  cases l <;> first | rfl | cases readable

theorem same_symm (equal : l.same l' = true) : l'.same l = true := by
  have reading (like : l.readsLike l' = true) : l'.same l = true := by
    obtain ⟨readings, found, found'⟩ := readsLike_iff.mp like
    rw [same_eq_readsLike (by rw [found']; rfl)]
    exact readsLike_iff.mpr ⟨readings, found', found⟩
  unfold same at equal
  split at equal
  · exact Moment.same_symm equal
  case h_9 | h_10 => exact reading equal
  all_goals simp_all [same]

theorem same_trans (first : l.same l' = true) (second : l'.same l'' = true) :
    l.same l'' = true := by
  have reading (like : l.readsLike l' = true) : l.same l'' = true := by
    obtain ⟨readings, found, found'⟩ := readsLike_iff.mp like
    rw [same_eq_readsLike (by rw [found']; rfl)] at second
    obtain ⟨_, again, found''⟩ := readsLike_iff.mp second
    cases found'.symm.trans again
    rw [same_eq_readsLike (by rw [found]; rfl)]
    exact readsLike_iff.mpr ⟨readings, found, found''⟩
  unfold same at first
  split at first
  · unfold same at second
    split at second <;> first | contradiction | skip
    rename_i m _ _ m'' same
    cases same
    exact Moment.same_trans first second
  case h_9 | h_10 => exact reading first
  all_goals
    unfold same at second
    split at second <;> simp_all [same]

end Leaf

namespace Value

/-- Induction over values as things to compare: lists and sets have parts that count. -/
@[elab_as_elim]
theorem comparedInd {motive : Value → Prop}
    (list : ∀ form items, (∀ item ∈ items, motive item) → motive (.list form items))
    (set : ∀ form members, (∀ member ∈ members, motive member) → motive (.set form members))
    (other : ∀ v, (∀ form items, v ≠ .list form items) → (∀ form members, v ≠ .set form members) →
      motive v)
    (v : Value) : motive v :=
  @Value.rec motive (fun items => ∀ item ∈ items, motive item) (fun _ => True) (fun _ => True)
    (other _ (by simp) (by simp)) (fun _ => other _ (by simp) (by simp))
    (fun _ => other _ (by simp) (by simp)) (fun _ => other _ (by simp) (by simp))
    list (fun _ _ _ => other _ (by simp) (by simp)) (fun _ _ _ => other _ (by simp) (by simp)) set
    (fun _ => other _ (by simp) (by simp)) (by simp)
    (fun _ _ head tail => List.forall_mem_cons.mpr ⟨head, tail⟩) trivial (fun _ _ _ _ => trivial)
    (fun _ _ _ _ => trivial) v

theorem sameItems_iff {items others : List Value} :
    sameItems items others = true ↔ List.Forall₂ (fun v v' => v.same v' = true) items others := by
  induction items generalizing others with
  | nil => cases others <;> simp [sameItems]
  | cons v rest ih => cases others <;> simp [sameItems, ih]

theorem sameMembers_iff {members others : List Value} :
    sameMembers members others = true ↔ ∀ v ∈ members, ∃ v' ∈ others, v.same v' = true := by
  induction members with
  | nil => simp [sameMembers]
  | cons v rest ih => simp [sameMembers, ih]

theorem isAmong_iff {members : List Value} {v' : Value} :
    isAmong members v' = true ↔ ∃ v ∈ members, v.same v' = true := by
  induction members with
  | nil => simp [isAmong]
  | cons v rest ih => simp [isAmong, ih]

/-- The ways in which two values can be equal. -/
inductive SameAs : Value → Value → Prop where
  | null : SameAs .null .null
  | text (s : String) : SameAs (.text s) (.text s)
  | list {form : ListForm} {items items' : List Value}
      (each : List.Forall₂ (fun v v' => v.same v' = true) items items') :
      SameAs (.list form items) (.list form items')
  | set {form form' : SetForm} {members members' : List Value}
      (count : members.length = members'.length)
      (there : ∀ v ∈ members, ∃ v' ∈ members', v.same v' = true)
      (back : ∀ v' ∈ members', ∃ v ∈ members, v.same v' = true) :
      SameAs (.set form members) (.set form' members')
  | amount {v v' : Value} {amount : Amount} (found : v.amount? = some amount)
      (found' : v'.amount? = some amount) : SameAs v v'
  | leaf {l l' : Leaf} (bare : (Value.leaf l).amount? = none)
      (bare' : (Value.leaf l').amount? = none) (equal : l.same l' = true) :
      SameAs (.leaf l) (.leaf l')

theorem same_iff {v v' : Value} : v.same v' = true ↔ v.SameAs v' := by
  constructor
  · intro equal
    unfold same at equal
    split at equal
    · exact .null
    · obtain rfl := eq_of_beq equal
      exact .text _
    · obtain ⟨form, each⟩ := Bool.and_eq_true_iff.mp equal
      obtain rfl := eq_of_beq form
      exact .list (sameItems_iff.mp each)
    · simp only [Bool.and_eq_true, beq_iff_eq, sameMembers_iff, List.all_eq_true,
        isAmong_iff] at equal
      obtain ⟨⟨count, there⟩, back⟩ := equal
      exact .set count there back
    · split at equal
      · rename_i found found'
        obtain rfl := of_decide_eq_true equal
        exact .amount found found'
      · rename_i bare bare'
        split at equal
        · exact .leaf bare bare' equal
        · contradiction
      · contradiction
  · intro like
    cases like with
    | null => rfl
    | text s => simp [same]
    | list each => simp [same, sameItems_iff.mpr each]
    | set count there back =>
      simp only [same, Bool.and_eq_true, beq_iff_eq, sameMembers_iff, List.all_eq_true, isAmong_iff]
      exact ⟨⟨count, there⟩, back⟩
    | amount found found' =>
      unfold same
      split
      · cases found
      · cases found
      · cases found
      · cases found
      · simp [found, found']
    | leaf bare bare' equal => simp [same, bare, bare', equal]

theorem same_symm {v v' : Value} (equal : v.same v' = true) : v'.same v = true := by
  induction v using comparedInd generalizing v' with
  | list form items ih =>
    rw [same_iff] at equal ⊢
    cases equal with
    | list each =>
      refine .list ?_
      induction each with
      | nil => exact .nil
      | cons head _ tail =>
        obtain ⟨first, later⟩ := List.forall_mem_cons.mp ih
        exact .cons (first head) (tail later)
    | amount found => cases found
  | set form members ih =>
    rw [same_iff] at equal ⊢
    cases equal with
    | set count there back =>
      refine .set count.symm (fun v' member => ?_) fun v member => ?_
      · obtain ⟨v, among, equal⟩ := back v' member
        exact ⟨v, among, ih v among equal⟩
      · obtain ⟨v', among, equal⟩ := there v member
        exact ⟨v', among, ih v member equal⟩
    | amount found => cases found
  | other v notList notSet =>
    rw [same_iff] at equal ⊢
    cases equal with
    | null => exact .null
    | text s => exact .text s
    | list => exact absurd rfl (notList _ _)
    | set => exact absurd rfl (notSet _ _)
    | amount found found' => exact .amount found' found
    | leaf bare bare' equal => exact .leaf bare' bare (Leaf.same_symm equal)

theorem same_trans {v v' v'' : Value} (first : v.same v' = true) (second : v'.same v'' = true) :
    v.same v'' = true := by
  induction v using comparedInd generalizing v' v'' with
  | list form items ih =>
    rw [same_iff] at first second ⊢
    cases first with
    | list each =>
      cases second with
      | @list _ _ items'' each' =>
        refine .list ?_
        induction each generalizing items'' with
        | nil => cases each'; exact .nil
        | cons head _ tail =>
          cases each' with
          | cons head' tail' =>
            obtain ⟨first, later⟩ := List.forall_mem_cons.mp ih
            exact .cons (first head head') (tail later tail')
      | amount found => cases found
    | amount found => cases found
  | set form members ih =>
    rw [same_iff] at first second ⊢
    cases first with
    | set count there back =>
      cases second with
      | set count' there' back' =>
        refine .set (count.trans count') (fun v member => ?_) fun v'' member => ?_
        · obtain ⟨v', among, equal⟩ := there v member
          obtain ⟨v'', among', equal'⟩ := there' v' among
          exact ⟨v'', among', ih v member equal equal'⟩
        · obtain ⟨v', among, equal'⟩ := back' v'' member
          obtain ⟨v, among', equal⟩ := back v' among
          exact ⟨v, among', ih v among' equal equal'⟩
      | amount found => cases found
    | amount found => cases found
  | other v notList notSet =>
    rw [same_iff] at first second ⊢
    cases first with
    | null => exact second
    | text s => exact second
    | list => exact absurd rfl (notList _ _)
    | set => exact absurd rfl (notSet _ _)
    | amount found found' =>
      cases second with
      | amount again found'' =>
        cases found'.symm.trans again
        exact .amount found found''
      | leaf bare => cases found'.symm.trans bare
      | _ => cases found'
    | leaf bare bare' equal =>
      cases second with
      | amount found => cases bare'.symm.trans found
      | leaf _ bare'' equal' => exact .leaf bare bare'' (Leaf.same_trans equal equal')

/-! ## Being told apart -/

theorem Mark.same_symm {mark mark' : Mark} (equal : mark.same mark' = true) :
    mark'.same mark = true := by
  cases mark <;> cases mark' <;> simp only [Mark.same, Bool.false_eq_true] at equal
  · exact Value.same_symm equal
  · exact beq_iff_eq.mpr (beq_iff_eq.mp equal).symm

theorem Mark.same_trans {mark mark' mark'' : Mark} (first : mark.same mark' = true)
    (second : mark'.same mark'' = true) : mark.same mark'' = true := by
  cases mark <;> cases mark' <;> simp only [Mark.same, Bool.false_eq_true] at first <;>
    cases mark'' <;> simp only [Mark.same, Bool.false_eq_true] at second
  · exact Value.same_trans first second
  · exact beq_iff_eq.mpr ((beq_iff_eq.mp first).trans (beq_iff_eq.mp second))

theorem alike_symm {v v' : Value} (like : v.alike v' = true) : v'.alike v = true := by
  obtain ⟨kind, mark⟩ := Bool.and_eq_true_iff.mp like
  exact Bool.and_eq_true_iff.mpr
    ⟨beq_iff_eq.mpr (beq_iff_eq.mp kind).symm, Mark.same_symm mark⟩

theorem alike_trans {v v' v'' : Value} (first : v.alike v' = true) (second : v'.alike v'' = true) :
    v.alike v'' = true := by
  obtain ⟨kind, mark⟩ := Bool.and_eq_true_iff.mp first
  obtain ⟨kind', mark'⟩ := Bool.and_eq_true_iff.mp second
  exact Bool.and_eq_true_iff.mpr ⟨beq_iff_eq.mpr ((beq_iff_eq.mp kind).trans (beq_iff_eq.mp kind')),
    Mark.same_trans mark mark'⟩

instance : Std.Symm fun v v' : Value => v.alike v' = true := ⟨fun _ _ => alike_symm⟩

/-- A list does not hold two values if any two that stand in it are told apart by nothing. -/
theorem holdsTwo_eq_false_iff {values : List Value} :
    holdsTwo values = false ↔ values.Pairwise fun v v' => v.alike v' = true := by
  cases values with
  | nil => simp [holdsTwo]
  | cons v rest =>
    rw [holdsTwo, List.pairwise_cons]
    simp only [List.any_eq_false, Bool.not_eq_true', Bool.not_eq_false]
    refine ⟨fun all => ⟨all, ?_⟩, And.left⟩
    exact List.pairwise_of_forall_mem_list fun u member w member' =>
      alike_trans (alike_symm (all u member)) (all w member')

/-- What a list holds is decided by its values in any order, and by no copies of values that count
as themselves. -/
theorem holdsTwo_congr {values others copies : List Value} (perm : others.Perm (values ++ copies))
    (copied : ∀ v ∈ copies, v ∈ values ∧ v.alike v = true) : holdsTwo values = holdsTwo others := by
  suffices same : holdsTwo values = false ↔ holdsTwo others = false by
    cases two : holdsTwo values <;> cases two' : holdsTwo others <;> simp_all
  rw [holdsTwo_eq_false_iff, holdsTwo_eq_false_iff, perm.pairwise_iff alike_symm,
    List.pairwise_append]
  refine ⟨fun pairs => ?_, And.left⟩
  have with_copy (v : Value) (member : v ∈ values) (copy : Value) (among : copy ∈ copies) :
      v.alike copy = true := by
    obtain ⟨there, itself⟩ := copied copy among
    by_cases same : v = copy
    · exact same ▸ itself
    · exact pairs.forall member there same
  refine ⟨pairs, ?_, with_copy⟩
  exact List.pairwise_of_forall_mem_list fun v among => with_copy v (copied v among).1

end Value
end SchemaInference
