import Mathlib.Data.List.Induction
import Mathlib.Data.List.Nodup
import SchemaInference.PathTree

/-! The nodes of a tree of samples. Growing keeps to the samples: a node has the values and key sets
of its path, and its children are the nodes one step below it, each once. In the end there is a node
for every path to which some path of the samples goes on. -/
namespace SchemaInference

namespace Path

theorem ancestry_concat (path : Path) (step : Segment) :
    ancestry (path ++ [step]) = ancestry path ++ [path ++ [step]] := by
  induction path with
  | nil => rfl
  | cons first rest ih => simp [ancestry, ih]

end Path

namespace PathTree
variable {s : Samples} {t : PathTree} {path : Path}

/-- Whether a path has a node. -/
def Has (t : PathTree) (path : Path) : Prop := path ∈ Assoc.keys t.nodes

/-- A tree that keeps to some samples: the root has a node, each node has what the samples hold at
its path, and its children are the nodes one step below it. -/
structure Grown (s : Samples) (t : PathTree) : Prop where
  rooted : t.Has []
  parents : ∀ path, t.Has path → t.Has path.dropLast
  values : ∀ path n, t.node? path = some n →
    n.values = s.valuesAt path ∧ n.keySets = s.keySetsAt path
  distinct : ∀ path n, t.node? path = some n → n.children.Nodup
  children : ∀ path n, t.node? path = some n → ∀ child,
    child ∈ n.children ↔ t.Has child ∧ child ≠ [] ∧ child.dropLast = path

theorem has_iff : t.Has path ↔ ∃ n, t.node? path = some n := by
  rw [Has, ← Assoc.find?_isSome_iff, Option.isSome_iff_exists]
  rfl

theorem grown_root (s : Samples) : Grown s (root s) where
  rooted := by simp [Has, root, Assoc.keys]
  parents := by simp [Has, root, Assoc.keys]
  values := by
    intro path n found
    simp only [node?, root, Assoc.find?_cons] at found
    split at found
    · rename_i same
      cases found
      exact same ▸ ⟨rfl, rfl⟩
    · contradiction
  distinct := by
    intro path n found
    simp only [node?, root, Assoc.find?_cons] at found
    split at found
    · cases found
      exact List.nodup_nil
    · contradiction
  children := by
    intro path n found child
    simp only [node?, root, Assoc.find?_cons] at found
    split at found
    · cases found
      simp only [List.not_mem_nil, false_iff, Has, root, Assoc.keys, List.map_cons, List.map_nil,
        List.mem_singleton]
      rintro ⟨isRoot, notRoot, -⟩
      exact notRoot isRoot
    · contradiction

/-- A node that has been told of a child. -/
def linked (path : Path) (other : Path) (n : PathNode) : PathNode :=
  if other = path.dropLast then { n with children := n.children ++ [path] } else n

theorem grow_of_has (has : t.Has path) : grow s t path = t := by
  rw [grow, if_pos (Assoc.contains_iff.mpr has)]

theorem node?_grow (new : ¬ t.Has path) (other : Path) :
    (grow s t path).node? other = ((t.node? other).map (linked path other)).or
      (if path = other then
        some ⟨some path.dropLast, path.getLast?, [], s.valuesAt path, s.keySetsAt path⟩
      else none) := by
  have absent : ¬ Assoc.contains path t.nodes = true := fun there =>
    new (Assoc.contains_iff.mp there)
  have told : (t.nodes.map fun pair => if pair.1 = path.dropLast then
        (pair.1, { pair.2 with children := pair.2.children ++ [path] }) else (pair.1, pair.2)) =
      t.nodes.map fun pair => (pair.1, linked path pair.1 pair.2) := by
    refine List.map_congr_left fun pair _ => ?_
    unfold linked
    split <;> rfl
  rw [grow, if_neg absent]
  show Assoc.find? other ((t.nodes.map fun pair => if pair.1 = path.dropLast then
    (pair.1, { pair.2 with children := pair.2.children ++ [path] }) else (pair.1, pair.2)) ++ _) = _
  rw [told, Assoc.find?_append, Assoc.find?_map]
  rfl

theorem has_grow {other : Path} : (grow s t path).Has other ↔ t.Has other ∨ other = path := by
  by_cases has : t.Has path
  · rw [grow_of_has has]
    exact ⟨.inl, fun either => either.elim id fun same => same ▸ has⟩
  · simp only [has_iff, node?_grow has]
    cases t.node? other with
    | some n => simp
    | none => by_cases same : path = other <;> simp [same, eq_comm]

/-- A node of the grown tree is an old one that may have been told of the new child, or the new one,
which has no children yet. -/
theorem of_node?_grow (new : ¬ t.Has path) {other : Path} {n : PathNode}
    (found : (grow s t path).node? other = some n) :
    (∃ old, t.node? other = some old ∧ n = linked path other old) ∨
    (other = path ∧
      n = ⟨some path.dropLast, path.getLast?, [], s.valuesAt path, s.keySetsAt path⟩) := by
  rw [node?_grow new] at found
  cases there : t.node? other with
  | some old =>
    rw [there] at found
    exact .inl ⟨old, rfl, (Option.some.inj found).symm⟩
  | none =>
    rw [there, Option.map_none, Option.none_or] at found
    split at found
    · rename_i same
      exact .inr ⟨same.symm, (Option.some.inj found).symm⟩
    · contradiction

/-- A node that was told of a child that is new has no child twice. -/
theorem nodup_linked (grown : Grown s t) (new : ¬ t.Has path) {other : Path} {old : PathNode}
    (there : t.node? other = some old) : (linked path other old).children.Nodup := by
  unfold linked
  split
  · refine List.nodup_append.mpr ⟨grown.distinct other old there, List.nodup_singleton _, ?_⟩
    rintro child among _ isNew rfl
    obtain rfl := List.mem_singleton.mp isNew
    exact new ((grown.children other old there _).mp among).1
  · exact grown.distinct other old there

/-- The children of a node that may have been told of one are those one step below it. -/
theorem mem_children_linked (grown : Grown s t) (notRoot : path ≠ []) {other child : Path}
    {old : PathNode} (there : t.node? other = some old) :
    child ∈ (linked path other old).children ↔
      (grow s t path).Has child ∧ child ≠ [] ∧ child.dropLast = other := by
  have before := grown.children other old there child
  unfold linked
  split
  · rename_i isParent
    rw [List.mem_append, List.mem_singleton, before, has_grow]
    constructor
    · rintro (⟨childHas, proper⟩ | rfl)
      · exact ⟨.inl childHas, proper⟩
      · exact ⟨.inr rfl, notRoot, isParent.symm⟩
    · rintro ⟨childHas | rfl, proper⟩
      · exact .inl ⟨childHas, proper⟩
      · exact .inr rfl
  · rename_i notParent
    rw [before, has_grow]
    refine and_congr_left fun proper => ⟨.inl, fun either => either.resolve_right ?_⟩
    rintro rfl
    exact notParent proper.2.symm

/-- Nothing stands below the new node: what does has a parent in the old tree. -/
theorem not_child_of_new (grown : Grown s t) (new : ¬ t.Has path) {child : Path}
    (childHas : (grow s t path).Has child) (proper : child ≠ []) : child.dropLast ≠ path := by
  intro isParent
  rcases has_grow.mp childHas with childHas | rfl
  · exact new (isParent ▸ grown.parents child childHas)
  · have shorter := congrArg List.length isParent
    have filled := List.length_pos_iff.mpr proper
    rw [List.length_dropLast] at shorter
    omega

/-- Growing keeps a tree to its samples, if the parent of the new node is there. -/
theorem grown_grow (grown : Grown s t) (parent : t.Has path.dropLast) :
    Grown s (grow s t path) := by
  by_cases has : t.Has path
  · rwa [grow_of_has has]
  · have notRoot : path ≠ [] := fun same => has (same ▸ grown.rooted)
    refine ⟨has_grow.mpr (.inl grown.rooted), ?_, ?_, ?_, ?_⟩
    · intro other otherHas
      rcases has_grow.mp otherHas with otherHas | rfl
      · exact has_grow.mpr (.inl (grown.parents other otherHas))
      · exact has_grow.mpr (.inl parent)
    · intro other n found
      rcases of_node?_grow has found with ⟨old, there, rfl⟩ | ⟨rfl, rfl⟩
      · unfold linked
        split <;> exact grown.values other old there
      · exact ⟨rfl, rfl⟩
    · intro other n found
      rcases of_node?_grow has found with ⟨old, there, rfl⟩ | ⟨rfl, rfl⟩
      · exact nodup_linked grown has there
      · exact List.nodup_nil
    · intro other n found child
      rcases of_node?_grow has found with ⟨old, there, rfl⟩ | ⟨rfl, rfl⟩
      · exact mem_children_linked grown notRoot there
      · refine iff_of_false List.not_mem_nil ?_
        rintro ⟨childHas, proper, isParent⟩
        exact not_child_of_new grown has childHas proper isParent

/-- Growing along the way to a path gives every path on that way a node, and no other. -/
theorem grown_ancestry (grown : Grown s t) (path : Path) :
    Grown s ((Path.ancestry path).foldl (grow s) t) ∧
      ∀ other,
        ((Path.ancestry path).foldl (grow s) t).Has other ↔ t.Has other ∨ other <+: path := by
  induction path using List.reverseRecOn with
  | nil =>
    refine ⟨grown_grow grown grown.rooted, fun other => ?_⟩
    simp [Path.ancestry, has_grow, List.prefix_nil]
  | append_singleton path step ih =>
    obtain ⟨below, has⟩ := ih
    rw [Path.ancestry_concat, List.foldl_append]
    refine ⟨grown_grow below ?_, fun other => ?_⟩
    · rw [List.dropLast_concat]
      exact (has path).mpr (.inr List.prefix_rfl)
    · simp only [List.foldl_cons, List.foldl_nil, has_grow, has, List.prefix_concat_iff]
      tauto

/-- The tree of samples keeps to them, and has a node for every path on the way to one of theirs. -/
theorem grown_ofSamples (s : Samples) : Grown s (ofSamples s) ∧
    ∀ path, (ofSamples s).Has path ↔ path = [] ∨ ∃ below ∈ s.paths, path <+: below := by
  have run (paths : List Path) {t : PathTree} (grown : Grown s t) :
      Grown s ((paths.flatMap Path.ancestry).foldl (grow s) t) ∧
        ∀ path, ((paths.flatMap Path.ancestry).foldl (grow s) t).Has path ↔
          t.Has path ∨ ∃ below ∈ paths, path <+: below := by
    induction paths generalizing t with
    | nil => exact ⟨grown, fun path => by simp⟩
    | cons first rest ih =>
      obtain ⟨firstGrown, firstHas⟩ := grown_ancestry grown first
      obtain ⟨restGrown, restHas⟩ := ih firstGrown
      rw [List.flatMap_cons, List.foldl_append]
      refine ⟨restGrown, fun path => ?_⟩
      rw [restHas, firstHas]
      simp [or_assoc]
  obtain ⟨grown, has⟩ := run s.paths (grown_root s)
  refine ⟨grown, fun path => (has path).trans (or_congr_left ?_)⟩
  simp [Has, root, Assoc.keys]

end PathTree
end SchemaInference
