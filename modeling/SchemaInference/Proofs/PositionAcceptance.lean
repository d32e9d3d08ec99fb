import SchemaInference.Proofs.PositionSchemas

/-! What the schema of a position accepts: null where it was seen, scalars of the tags that were
seen, lists of what is accepted one step below, and maps with the fields that were seen. -/
namespace SchemaInference

namespace Schema

theorem accepts_besideNull {nullable : Bool} {members : List Schema} {v : Value} :
    (besideNull nullable members).accepts v = true ↔
      ((members = [] ∨ nullable = true) ∧ v = .null) ∨ ∃ s ∈ members, s.accepts v = true := by
  unfold besideNull
  split
  · simp [null, Value.tag_eq_null_iff]
  · rename_i filled
    have filled : members ≠ [] := filled
    cases nullable <;> simp [accepts_ofAlternatives, filled]

theorem accepts_scalarOf {enum : Option (List String)} {tag : String} {v : Value} :
    (scalarOf enum tag).accepts v = true ↔ v.tag = tag ∧
      ∀ values, enum = some values → ∀ text, v = .text text → text ∈ values := by
  unfold scalarOf
  cases enum with
  | none => simp
  | some values =>
    by_cases isString : tag = "string"
    · subst isString
      simp only [beq_self_eq_true, if_true, accepts_enum, mem_ascending, Option.some.injEq,
        forall_eq', Value.tag_eq_string_iff]
      constructor
      · rintro ⟨text, member, rfl⟩
        exact ⟨⟨text, rfl⟩, by rintro _ ⟨⟩; exact member⟩
      · rintro ⟨⟨text, rfl⟩, among⟩
        exact ⟨text, among text rfl, rfl⟩
    · have apart : v.tag = tag → ∀ text, v ≠ .text text := by
        rintro rfl text rfl
        exact isString rfl
      simp only [beq_iff_eq, isString, if_false, accepts_scalar]
      exact ⟨fun same => ⟨same, fun _ _ text isText => absurd isText (apart same text)⟩, And.left⟩

end Schema

namespace Samples
open Schema
variable {s : Samples} {c : Config} {path : Path} {n : PathNode} {v : Value}

/-- A position without alternatives is one where null was seen. -/
theorem nullable_of_no_members (closed : s.Closed c.maxDepth) (node : s.NodeOf path n)
    (there : path ∈ s.paths)
    (none : scalarMembers c n ++ s.listMembers c n ++ s.mapMembers c path n = []) :
    n.nullable = true := by
  rw [List.append_eq_nil_iff, List.append_eq_nil_iff] at none
  obtain ⟨⟨noScalarMembers, noListMembers⟩, noMapMembers⟩ := none
  have noScalars : n.scalars = [] := by
    by_contra filled
    exact scalarMembers_ne_nil filled noScalarMembers
  have noLists : n.lists = [] := by
    by_contra filled
    rw [listMembers_of_filled filled] at noListMembers
    cases noListMembers
  have noKeySets : n.keySets = [] := by
    by_contra filled
    exact mapMembers_ne_nil filled noMapMembers
  exact node.nullable_of_empty closed there noScalars noLists noKeySets

/-- The schema of a position accepts null where it was seen, and what an alternative accepts. -/
theorem accepts_schemaAt (closed : s.Closed c.maxDepth) (node : s.NodeOf path n)
    (there : path ∈ s.paths) (shallow : path.length ≤ c.maxDepth) :
    (s.schemaAt c path).accepts v = true ↔ (n.nullable = true ∧ v = .null) ∨
      (∃ member ∈ scalarMembers c n, member.accepts v = true) ∨
      (∃ member ∈ s.listMembers c n, member.accepts v = true) ∨
      ∃ member ∈ s.mapMembers c path n, member.accepts v = true := by
  rw [schemaAt_eq closed node there shallow, accepts_besideNull]
  have null := nullable_of_no_members closed node there
  have nullable : ((scalarMembers c n ++ s.listMembers c n ++ s.mapMembers c path n = [] ∨
      n.nullable = true) ∧ v = .null) ↔ n.nullable = true ∧ v = .null :=
    and_congr_left fun _ => ⟨fun either => either.elim null id, .inr⟩
  rw [nullable]
  simp only [List.mem_append, or_and_right, exists_or, or_assoc]

theorem accepts_scalarMembers : (∃ member ∈ scalarMembers c n, member.accepts v = true) ↔
    (∃ u ∈ n.scalars, u.tag = v.tag) ∧
      ∀ values, enumOf? c (n.values.filterMap Value.text?) = some values →
        ∀ text, v = .text text → text ∈ values := by
  simp only [scalarMembers, List.mem_map, exists_exists_and_eq_and, accepts_scalarOf, mem_sortTags]
  constructor
  · rintro ⟨u, scalar, same, among⟩
    exact ⟨⟨u, scalar, same.symm⟩, among⟩
  · rintro ⟨⟨u, scalar, same⟩, among⟩
    exact ⟨u, scalar, same.symm, among⟩

theorem accepts_listMembers (node : s.NodeOf path n) :
    (∃ member ∈ s.listMembers c n, member.accepts v = true) ↔
      n.lists ≠ [] ∧ ∃ items, v.items? = some items ∧ (path ++ [.wildcard] ∈ s.paths →
        ∀ item ∈ items, (s.schemaAt c (path ++ [.wildcard])).accepts item = true) := by
  by_cases none : n.lists = []
  · simp [listMembers, none]
  · rw [listMembers_of_filled none, node.element?]
    by_cases element : path ++ [Segment.wildcard] ∈ s.paths <;> simp [none, element]

/-- Maps that make no record are accepted by their fields. -/
theorem accepts_mapMembers (noRecord : (PathTree.ofSamples s).record? c n = none) :
    (∃ member ∈ s.mapMembers c path n, member.accepts v = true) ↔
      n.keySets ≠ [] ∧ ∃ entries, v.entries? = some entries ∧
        (∀ name ∈ n.names,
          (∀ item, lastUnder name entries = some item →
            (s.schemaAt c (path ++ [.key name])).accepts item = true) ∧
          (lastUnder name entries = none → n.lacks name = true)) ∧
        (c.strictObjects = true → ∀ name ∈ Assoc.keys entries, name ∈ n.names) := by
  have keys : Assoc.keys (s.fieldsAt c path n) = n.names := by
    simp [fieldsAt, Assoc.keys, Function.comp_def]
  by_cases none : n.keySets = []
  · simp [mapMembers_of_empty none, none]
  · rw [mapMembers_of_object none noRecord]
    simp only [List.mem_singleton, exists_eq_left, accepts_object, keys]
    simp [none, fieldsAt]

end Samples
end SchemaInference
