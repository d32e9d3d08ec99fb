import SchemaInference.Proofs.PositionSchemas

/-! How many calls making a schema takes. Seven calls lead from a position whose structure was
inferred to one a step below, where scalars, lists and maps were seen together, and fewer where they
were not; so the greatest depth bounds the calls that are nested. -/
namespace SchemaInference

namespace Schema
variable {c : Config} {depth bound : Nat}

theorem buildCalls_of_deep (deep : c.maxDepth < depth) (s : Structure) :
    buildCalls c depth s = 1 := by
  cases s with
  | array _ element => cases element <;> rw [buildCalls, if_pos deep]
  | _ => rw [buildCalls, if_pos deep]

/-- Marks take no calls. -/
theorem buildCalls_withFlags (flags : Flags) (s : Structure) :
    buildCalls c depth (s.withFlags flags) = buildCalls c depth s := by
  cases s with
  | array _ element => cases element <;> rfl
  | _ => rfl

theorem optionCalls_le {options : List Structure}
    (each : ∀ option ∈ options, buildCalls c depth option ≤ bound) :
    optionCalls c depth options ≤ bound := by
  induction options with
  | nil => exact Nat.zero_le bound
  | cons option rest ih =>
    obtain ⟨first, later⟩ := List.forall_mem_cons.mp each
    exact Nat.max_le.mpr ⟨first, ih later⟩

theorem fieldCalls_le {children : List (String × Structure)}
    (each : ∀ child ∈ children, buildCalls c depth child.2 ≤ bound) :
    fieldCalls c depth children ≤ bound := by
  induction children with
  | nil => exact Nat.zero_le bound
  | cons child rest ih =>
    obtain ⟨first, later⟩ := List.forall_mem_cons.mp each
    exact Nat.max_le.mpr ⟨first, ih later⟩

/-- A position takes three calls more than the option that takes most. -/
theorem buildCalls_ofOptions_le {options : List Structure} (nullable : Bool) (bound : Nat)
    (some : 2 ≤ bound)
    (each : ∀ option ∈ options, buildCalls c depth option ≤ bound) :
    buildCalls c depth (.ofOptions nullable options) ≤ 3 + bound := by
  match options with
  | [] =>
    rw [Structure.ofOptions, buildCalls]
    split <;> omega
  | [only] =>
    rw [Structure.ofOptions, Structure.setNullable, buildCalls_withFlags]
    have := each only List.mem_cons_self
    omega
  | first :: second :: rest =>
    show buildCalls c depth (.mixed { nullable } (first :: second :: rest)) ≤ _
    rw [buildCalls]
    split
    · omega
    · have := optionCalls_le each
      omega

end Schema

namespace PathTree
open Schema
variable {t : PathTree} {c : Config}

/-- An option takes four calls more than the position below it that takes most. -/
theorem buildCalls_option_le {n : PathNode} {levels depth bound : Nat} {option : Structure}
    (member : option ∈ t.options c levels n)
    (below : ∀ path, buildCalls c (depth + 1) (t.structureAt c levels path) ≤ bound) :
    buildCalls c depth option ≤ 4 + bound := by
  by_cases deep : c.maxDepth < depth
  · rw [buildCalls_of_deep deep]
    omega
  · rw [options, List.mem_append, List.mem_append] at member
    rcases member with (scalar | array) | map
    · unfold PathNode.scalarOption at scalar
      split at scalar
      · cases scalar
      · rw [List.mem_singleton.mp scalar, buildCalls, if_neg deep]
        omega
    · split at array
      · cases array
      · rw [List.mem_singleton.mp array, arrayOption]
        cases n.element? with
        | none =>
          rw [Option.map_none, buildCalls, if_neg deep]
          omega
        | some element =>
          rw [Option.map_some, buildCalls, if_neg deep]
          have := below element
          omega
    · split at map
      · cases map
      · rw [List.mem_singleton.mp map]
        cases found : t.record? c n with
        | some record =>
          obtain ⟨pattern, stem, label, rfl⟩ := record?_eq_some found
          rw [Option.getD_some, buildCalls, if_neg deep]
          omega
        | none =>
          rw [Option.getD_none, objectOption, buildCalls, if_neg deep]
          refine Nat.add_le_add_left (fieldCalls_le ?_) 4
          simp only [List.forall_mem_map]
          intro child _
          split
          · rw [Structure.makeOptional, buildCalls_withFlags]
            exact below child
          · exact below child

/-- The schema of a structure that is inferred takes seven calls for each level at the most. -/
theorem buildCalls_structureAt_le {levels depth : Nat} (last : depth + levels = c.maxDepth + 1)
    (path : Path) : buildCalls c depth (t.structureAt c levels path) ≤ 7 * levels + 1 := by
  induction levels generalizing depth path with
  | zero => exact Nat.le_of_eq (buildCalls_of_deep (by omega) _)
  | succ levels ih =>
    rw [structureAt_succ]
    split
    · rw [Structure.anything, buildCalls]
      split <;> omega
    · refine (buildCalls_ofOptions_le _ (4 + (7 * levels + 1)) (by omega) ?_).trans (by omega)
      exact fun option member => buildCalls_option_le member fun below => ih (by omega) below

end PathTree
end SchemaInference
