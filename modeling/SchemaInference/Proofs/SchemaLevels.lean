import SchemaInference.Proofs.Records
import SchemaInference.Proofs.Prediction

/-! How far down a schema goes. The schema of a position is made of those one step below, and the
last position that is looked at is at the greatest depth; so no schema that is inferred has more
levels than positions on one path can be looked at. -/
namespace SchemaInference

/-- The schema of a label is that of a member of it, a union of such, or any. -/
theorem Schema.ofLabel_ind {P Q : Schema → Prop} {label : String} (any : P .any)
    (one : ∀ s, Q s → P s)
    (union : ∀ members, (∀ member ∈ members, Q member) → P (.union members))
    (each : ∀ member ∈ Label.split (Text.trim label), Q (ofMember member)) : P (ofLabel label) := by
  unfold ofLabel
  dsimp only
  split
  · apply anyOf_ind any one (fun members _ => union members)
    intro s isMember alternative among
    obtain ⟨member, isShown, rfl⟩ := List.mem_map.mp isMember
    have alone : (ofMember member).alternatives = [ofMember member] := by
      unfold ofMember
      split
      · rfl
      · split <;> rfl
    rw [alone, List.mem_singleton] at among
    exact among ▸ each member (List.mem_filter.mp isShown).1
  · rename_i few
    obtain ⟨only, single⟩ : ∃ only, Label.split (Text.trim label) = [only] := by
      apply List.length_eq_one_iff.mp
      have filled := List.length_pos_iff.mpr (Label.split_ne_nil (Text.trim label))
      omega
    rw [← Label.eq_of_split_singleton (Label.trim_trim label) single]
    exact one _ (each only (single ▸ List.mem_singleton_self only))

/-- What holds of each alternative, and is kept by unions and by letting null in, holds of them with
null beside them. -/
theorem Schema.besideNull_ind {P : Schema → Prop} {isNullable : Bool} {members : List Schema}
    (any : P .any) (null : P .null) (nullable : ∀ inner, P inner → P (.nullable inner))
    (union : ∀ members, (∀ member ∈ members, P member) → P (.union members))
    (each : ∀ member ∈ members, P member) : P (besideNull isNullable members) := by
  have whole : P (ofAlternatives members) := by
    match members with
    | [] => exact any
    | [only] => exact each only (List.mem_singleton.mpr rfl)
    | first :: second :: rest => exact union _ each
  cases members with
  | nil => exact null
  | cons first rest =>
    cases isNullable with
    | false => exact whole
    | true => exact nullable _ whole

namespace Samples
open Schema
variable {s : Samples} {c : Config} {path : Path}

/-- Induction over the schemas of positions, from the greatest depth up. `levels` counts the
positions that are looked at from there on down. -/
theorem Closed.schemaAt_induction (closed : s.Closed c.maxDepth) {motive : Nat → Schema → Prop}
    (any : ∀ levels, motive levels .any)
    (null : ∀ levels, motive levels .null)
    (nullable : ∀ levels inner, motive levels inner → motive levels (.nullable inner))
    (union : ∀ levels members, (∀ member ∈ members, motive levels member) →
      motive levels (.union members))
    (scalar : ∀ levels path n, s.NodeOf path n → path.length ≤ c.maxDepth →
      ∀ member ∈ scalarMembers c n, motive levels member)
    (list : ∀ levels element, motive levels element → motive (levels + 1) (.list element))
    (object : ∀ levels shape strict, (∀ field ∈ shape, motive levels field.2.2) →
      motive (levels + 1) (.object shape strict))
    (record : ∀ levels path n pattern rule, s.NodeOf path n → path.length ≤ c.maxDepth →
      (∀ name ∈ n.names, s.IsLeaf (path ++ [.key name])) →
      motive (levels + 1) (.record pattern rule (ofLabel (s.labelUnder path n.names))))
    {levels : Nat} (there : path ∈ s.paths) (depth : path.length + levels = c.maxDepth + 1) :
    motive levels (s.schemaAt c path) := by
  suffices position : ∀ levels, path.length + levels = c.maxDepth + 1 →
      motive levels (s.schemaAt c path) from position levels depth
  refine closed.position_induction ?_ ?_ there
  · intro path _ deep levels _
    rw [schemaAt_of_deep deep]
    exact any levels
  · intro path n node there shallow ih levels depth
    obtain ⟨levels, rfl⟩ : ∃ further, levels = further + 1 := ⟨levels - 1, by omega⟩
    rw [schemaAt_eq closed node there shallow]
    apply besideNull_ind (any _) (null _) (nullable _) (union _)
    intro member among
    rw [List.mem_append, List.mem_append] at among
    rcases among with (among | among) | among
    · exact scalar _ path n node shallow member among
    · rw [(mem_listMembers_iff.mp among).2, node.element?]
      apply list
      split
      · rename_i below
        exact ih _ below _ (Path.length_concat_add _ depth)
      · exact any _
    · obtain ⟨-, ⟨-, rfl⟩ | ⟨pattern, stem, label, found, rfl⟩⟩ :=
        (mem_mapMembers_iff shallow).mp among
      · apply object
        intro field isField
        obtain ⟨name, isName, rfl⟩ := List.mem_map.mp isField
        exact ih _ ((node.mem_names closed).mp isName) _ (Path.length_concat_add _ depth)
      · obtain ⟨_, -, leaves, -, -, same⟩ := (node.record?_eq_some_iff closed).mp found
        cases same
        exact record _ path n _ _ node shallow leaves

end Samples

namespace Schema

mutual

/-- How many lists, objects and records of a schema stand one in another. -/
def levels : Schema → Nat
  | .any | .scalar _ | .enum _ => 0
  | .nullable inner => inner.levels
  | .union members => memberLevels members
  | .list element => element.levels + 1
  | .record _ _ value => value.levels + 1
  | .object shape _ => fieldLevels shape + 1

def memberLevels : List Schema → Nat
  | [] => 0
  | s :: rest => max s.levels (memberLevels rest)

def fieldLevels : List (String × Bool × Schema) → Nat
  | [] => 0
  | (_, _, s) :: rest => max s.levels (fieldLevels rest)

end

variable {bound : Nat}

theorem memberLevels_le_iff {members : List Schema} :
    memberLevels members ≤ bound ↔ ∀ member ∈ members, member.levels ≤ bound := by
  induction members with
  | nil => simp [memberLevels]
  | cons first rest ih => rw [memberLevels, Nat.max_le, ih, List.forall_mem_cons]

theorem fieldLevels_le_iff {shape : List (String × Bool × Schema)} :
    fieldLevels shape ≤ bound ↔ ∀ field ∈ shape, field.2.2.levels ≤ bound := by
  induction shape with
  | nil => simp [fieldLevels]
  | cons first rest ih => rw [fieldLevels, Nat.max_le, ih, List.forall_mem_cons]

theorem levels_ofMember (member : String) : (ofMember member).levels = 0 := by
  unfold ofMember
  split
  · rfl
  · split <;> rfl

/-- What a label says has no levels. -/
theorem levels_ofLabel (label : String) : (ofLabel label).levels = 0 := by
  refine ofLabel_ind (P := fun s => s.levels = 0) rfl (fun _ own => own) ?_
    fun member _ => levels_ofMember member
  intro members each
  exact Nat.le_zero.mp (memberLevels_le_iff.mpr fun member among => (each member among).le)

theorem levels_scalarOf (enum : Option (List String)) (tag : String) :
    (scalarOf enum tag).levels = 0 := by
  rcases scalarOf_cases enum tag with ⟨_, -, made⟩ | made <;> rw [made] <;> rfl

end Schema

/-- The schema of a position has no more levels than are looked at from there on down. -/
theorem Samples.levels_schemaAt {s : Samples} {c : Config} {path : Path} {levels : Nat}
    (closed : s.Closed c.maxDepth) (there : path ∈ s.paths)
    (depth : path.length + levels = c.maxDepth + 1) : (s.schemaAt c path).levels ≤ levels := by
  refine closed.schemaAt_induction (motive := fun levels s => s.levels ≤ levels)
    (fun _ => Nat.zero_le _) (fun _ => Nat.zero_le _) (fun _ _ inner => inner)
    (fun _ _ each => Schema.memberLevels_le_iff.mpr each) ?_
    (fun _ _ element => Nat.succ_le_succ element)
    (fun _ _ _ each => Nat.succ_le_succ (Schema.fieldLevels_le_iff.mpr each)) ?_ there depth
  · intro levels path n _ _ member among
    obtain ⟨tag, -, rfl⟩ := List.mem_map.mp among
    rw [Schema.levels_scalarOf]
    exact Nat.zero_le _
  · intro levels path n pattern rule _ _ _
    rw [Schema.levels, Schema.levels_ofLabel]
    exact Nat.succ_le_succ (Nat.zero_le _)

end SchemaInference
