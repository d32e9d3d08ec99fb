import SchemaInference.Proofs.KeyConventions
import SchemaInference.Proofs.Positions

/-! Records. Whether the maps at a position make one is decided by the names of their keys, by what
stands under them and by nothing else; and once they do, every value that was sampled under a key is
one that the record takes, whatever becomes of the key itself. -/
namespace SchemaInference

/-- Whether a value refuses to be told from others, by equality or by its written form. -/
def Value.isRefused (v : Value) : Bool :=
  match v.mark with
  | .refused _ => true
  | _ => false

namespace Samples
variable {s : Samples} {c : Config} {limit : Nat} {path : Path} {n : PathNode}

/-! ## What stands under names -/

/-- The values that were seen under names. -/
def valuesUnder (s : Samples) (path : Path) (names : List String) : List Value :=
  names.flatMap fun name => s.valuesAt (path ++ [.key name])

/-- Nothing but leaves was seen at a path. -/
structure IsLeaf (s : Samples) (path : Path) : Prop where
  childless : ∀ step, path ++ [step] ∉ s.paths
  keySets : s.keySetsAt path = []
  values : ∀ v ∈ s.valuesAt path, v.isList = false ∧ v.isMap = false

theorem NodeOf.isLeaf_iff (node : s.NodeOf path n) : n.isLeaf = true ↔ s.IsLeaf path := by
  have childless : n.children.isEmpty = true ↔ ∀ step, path ++ [step] ∉ s.paths := by
    rw [List.isEmpty_iff, List.eq_nil_iff_forall_not_mem]
    simp only [node.children, not_exists, not_and]
    exact ⟨fun none step => none _ step rfl, by rintro none _ step rfl; exact none step⟩
  rw [PathNode.isLeaf, Bool.and_eq_true, Bool.and_eq_true, childless, node.keySets, node.values]
  simp only [List.isEmpty_iff, List.all_eq_true, Bool.and_eq_true, Bool.not_eq_true']
  exact ⟨fun ⟨⟨first, second⟩, third⟩ => ⟨first, second, third⟩,
    fun leaf => ⟨⟨leaf.childless, leaf.keySets⟩, leaf.values⟩⟩

theorem NodeOf.childSteps_eq (node : s.NodeOf path n) (closed : s.Closed limit) :
    PathTree.childSteps n = n.names.map .key := by
  rw [PathTree.childSteps, node.named_eq closed, List.filterMap_map]
  simp [Function.comp_def]

/-- The nodes of the named children stand for their paths. -/
theorem NodeOf.forall_childNodes (node : s.NodeOf path n) (closed : s.Closed limit) :
    List.Forall₂ (fun name child => s.NodeOf (path ++ [.key name]) child) n.names
      ((PathTree.ofSamples s).childNodes n) := by
  have each : ∀ name ∈ n.names, path ++ [Segment.key name] ∈ s.paths :=
    fun name => (node.mem_names closed).mp
  rw [PathTree.childNodes, node.named_eq closed, List.filterMap_map]
  generalize n.names = names at each
  induction names with
  | nil => exact .nil
  | cons name rest ih =>
    obtain ⟨first, later⟩ := List.forall_mem_cons.mp each
    obtain ⟨child, childNode⟩ := closed.exists_node first
    rw [List.filterMap_cons_some (by exact childNode.found)]
    exact .cons childNode (ih later)

theorem NodeOf.childNodes_isLeaf (node : s.NodeOf path n) (closed : s.Closed limit) :
    ((PathTree.ofSamples s).childNodes n).all PathNode.isLeaf = true ↔
      ∀ name ∈ n.names, s.IsLeaf (path ++ [.key name]) := by
  have nodes := node.forall_childNodes closed
  generalize n.names = names, (PathTree.ofSamples s).childNodes n = children at nodes ⊢
  induction nodes with
  | nil => simp
  | cons childNode _ ih => simp [childNode.isLeaf_iff, ← ih]

theorem NodeOf.childNodes_values (node : s.NodeOf path n) (closed : s.Closed limit) :
    ((PathTree.ofSamples s).childNodes n).flatMap PathNode.values = s.valuesUnder path n.names := by
  have nodes := node.forall_childNodes closed
  unfold valuesUnder
  generalize n.names = names, (PathTree.ofSamples s).childNodes n = children at nodes ⊢
  induction nodes with
  | nil => rfl
  | cons childNode _ ih => rw [List.flatMap_cons, List.flatMap_cons, ih, childNode.values]

/-- The tags of the values under names, null apart. -/
def tagsUnder (s : Samples) (path : Path) (names : List String) : TagSet :=
  .ofList (((s.valuesUnder path names).filter fun v => !v.isNull).map Value.tag)

/-- The label of the values under names. -/
def labelUnder (s : Samples) (path : Path) (names : List String) : String :=
  Label.render (s.tagsUnder path names).toList none ((s.valuesUnder path names).any Value.isNull)
    false

/-- The pattern of the keys at a node, for its names. -/
theorem NodeOf.recordPattern?_eq_some_iff (node : s.NodeOf path n) (closed : s.Closed limit)
    {pattern : KeyPattern} : PathTree.recordPattern? c n = some pattern ↔
      c.recordMinKeys ≤ n.names.length ∧ KeyPattern.ofKeys (n.names.map .key) = some pattern ∧
        (pattern = .prefixed ∨ pattern = .snakeCase) := by
  have length : n.named.length = n.names.length := by rw [PathNode.names, List.length_map]
  rw [PathTree.recordPattern?, node.childSteps_eq closed, length]
  split
  · rename_i few
    simp [Nat.not_le.mpr few]
  · rename_i enough
    simp [Nat.not_lt.mp enough, Option.filter_eq_some_iff]

/-- When the maps at a position make a record, and which. -/
theorem NodeOf.record?_eq_some_iff (node : s.NodeOf path n) (closed : s.Closed limit)
    {record : Structure} : (PathTree.ofSamples s).record? c n = some record ↔
      ∃ pattern, PathTree.recordPattern? c n = some pattern ∧
        (∀ name ∈ n.names, s.IsLeaf (path ++ [.key name])) ∧
        goTogether (s.tagsUnder path n.names) = true ∧
        Value.holdsTwo (s.valuesUnder path n.names) = true ∧
        record = .record {} pattern
          (if pattern = .prefixed then KeyPattern.sharedStem n.names else none)
          (s.labelUnder path n.names) := by
  have texts : (PathTree.childSteps n).map Segment.text = n.names := by
    rw [node.childSteps_eq closed, List.map_map]
    exact List.map_id _
  unfold PathTree.record?
  cases PathTree.recordPattern? c n with
  | none => simp
  | some pattern =>
    simp only [node.childNodes_values closed, texts, Option.ite_none_right_eq_some,
      Bool.and_eq_true, node.childNodes_isLeaf closed, Option.some.injEq, exists_eq_left']
    simp only [tagsUnder, labelUnder, and_assoc, eq_comm]

/-- Where the decision on a record is not refused, no value that it looks at refuses to be told from
others. -/
theorem NodeOf.isRefused_eq_false (node : s.NodeOf path n) (closed : s.Closed limit)
    {pattern : KeyPattern} (found : PathTree.recordPattern? c n = some pattern)
    (leaves : ∀ name ∈ n.names, s.IsLeaf (path ++ [.key name])) {height : Nat}
    (noRefusal : Room.refusal? none ((PathTree.ofSamples s).decisionSteps c height n) = none) :
    ∀ v ∈ s.valuesUnder path n.names, v.isRefused = false := by
  have all := List.all_eq_true.mp ((node.childNodes_isLeaf closed).mpr leaves)
  rw [PathTree.decisionSteps, found, Option.isSome_some, if_pos rfl,
    List.takeWhile_eq_self_iff.mpr all, ← List.flatMap_assoc, node.childNodes_values closed,
    Room.refusal?_flatMap_eq_none_iff] at noRefusal
  intro v member
  have told := noRefusal v member
  unfold Value.tellingSteps at told
  unfold Value.isRefused
  cases marked : v.mark with
  | refused cause =>
    rw [marked] at told
    cases told
  | _ => rfl

theorem mem_tagsUnder {names : List String} {tag : String} :
    tag ∈ (s.tagsUnder path names).toList ↔
      ∃ v ∈ s.valuesUnder path names, v ≠ .null ∧ v.tag = tag := by
  have notNull (v : Value) : (!v.isNull) = true ↔ v ≠ .null := by cases v <;> simp [Value.isNull]
  rw [TagSet.mem_toList, tagsUnder, TagSet.mem_ofList]
  simp only [List.mem_map, List.mem_filter, notNull, and_assoc]

theorem ofValues_tagsUnder (names : List String) : OfValues (s.tagsUnder path names).toList := by
  intro tag member
  obtain ⟨v, -, notNull, rfl⟩ := mem_tagsUnder.mp member
  exact ⟨v.kind, fun isNull => notNull (Value.kind_eq_null_iff.mp isNull), rfl⟩

theorem any_isNull_iff {values : List Value} :
    values.any Value.isNull = true ↔ .null ∈ values := by
  simp [Value.isNull_iff]

/-- A value under names shows in their label, by its tag or as null. -/
theorem tag_under {names : List String} {v : Value} (member : v ∈ s.valuesUnder path names) :
    v.tag ∈ (s.tagsUnder path names).toList ∨
      ((s.valuesUnder path names).any Value.isNull = true ∧ v = .null) := by
  by_cases isNull : v = .null
  · exact .inr ⟨any_isNull_iff.mpr (isNull ▸ member), isNull⟩
  · exact .inl (mem_tagsUnder.mpr ⟨v, member, isNull, rfl⟩)

theorem tagsUnder_filled {names : List String} (seen : s.valuesUnder path names ≠ []) :
    (s.tagsUnder path names).toList ≠ [] ∨
      (s.valuesUnder path names).any Value.isNull = true := by
  obtain ⟨v, member⟩ := List.exists_mem_of_ne_nil _ seen
  exact (tag_under member).imp List.ne_nil_of_mem And.left

/-- The label of values is read as one alternative for every tag of theirs. -/
theorem ofLabel_labelUnder {names : List String} (seen : s.valuesUnder path names ≠ []) :
    Schema.ofLabel (s.labelUnder path names) = .ofAlternatives
      ((Schema.shownTags (s.tagsUnder path names).toList
        ((s.valuesUnder path names).any Value.isNull)).map .scalar) :=
  Schema.ofLabel_render (tagsUnder_filled seen) (ofValues_tagsUnder names) (by simp)

/-- The label of values takes the values of their tags. -/
theorem accepts_labelUnder_iff {names : List String} (seen : s.valuesUnder path names ≠ [])
    {v : Value} : (Schema.ofLabel (s.labelUnder path names)).accepts v = true ↔
      ∃ u ∈ s.valuesUnder path names, u.tag = v.tag := by
  rw [labelUnder,
    Schema.accepts_ofLabel_render (ofValues_tagsUnder names) (tagsUnder_filled seen)]
  constructor
  · rintro (own | ⟨isNull, rfl⟩)
    · obtain ⟨u, member, -, same⟩ := mem_tagsUnder.mp own
      exact ⟨u, member, same⟩
    · exact ⟨_, any_isNull_iff.mp isNull, rfl⟩
  · rintro ⟨u, member, same⟩
    rw [← same, ← Value.tag_eq_null_iff, ← same, Value.tag_eq_null_iff]
    exact tag_under member

/-- The label of values takes each of them. -/
theorem accepts_labelUnder {names : List String} {v : Value}
    (member : v ∈ s.valuesUnder path names) :
    (Schema.ofLabel (s.labelUnder path names)).accepts v = true :=
  (accepts_labelUnder_iff (List.ne_nil_of_mem member)).mpr ⟨v, member, rfl⟩

end Samples
end SchemaInference
