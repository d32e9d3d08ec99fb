import Mathlib.Data.List.Count
import SchemaInference.Proofs.Collection
import SchemaInference.Proofs.TreeNodes

/-! The tree of samples is a tree. The paths come in any order, and one may come before or after
those on the way to it; each time, what is missing on that way is made from the top down. However
many have come so far, the nodes hang together by parents and children in one way only: a path that
has a node is among the children of its parent, once, and among no others. -/
namespace SchemaInference.PathTree

variable {s : Samples} {t : PathTree} {path : Path} {paths : List Path}

/-- Nodes that hang where their paths say: no path has two nodes, and each node knows its parent and
the step that leads from there to it. The root has neither. -/
structure Hung (t : PathTree) : Prop where
  once : (Assoc.keys t.nodes).Nodup
  root : ∀ n, t.node? [] = some n → n.parent = none ∧ n.step = none
  below : ∀ above step n, t.node? (above ++ [step]) = some n →
    n.parent = some above ∧ n.step = some step

/-- A tree that spans some paths, with what samples hold at them. Its nodes are the paths from the
root to these; a node is among the children of its parent, once, and of no other node, and a node
has one child at most that stands for the items of lists. What was made on the way to a path of the
samples, and is none itself, holds nothing. -/
structure Spans (s : Samples) (paths : List Path) (t : PathTree) : Prop extends Hung t where
  has : ∀ path, t.Has path ↔ path = [] ∨ ∃ below ∈ paths, path <+: below
  known : ∀ path n, t.node? path = some n → ∀ child ∈ n.children, t.Has child
  listed : ∀ path n, t.node? path = some n → ∀ other, t.Has other →
    n.children.count other = if other ≠ [] ∧ other.dropLast = path then 1 else 0
  wildcards : ∀ path n, t.node? path = some n →
    n.children.countP (fun child => child.getLast?.any Segment.isWildcard) ≤ 1
  values : ∀ path n, t.node? path = some n →
    n.values = s.valuesAt path ∧ n.keySets = s.keySetsAt path
  created : ∀ path n, t.node? path = some n → path ∉ s.paths → n.values = [] ∧ n.keySets = []

/-! ## How nodes hang -/

theorem hung_root (s : Samples) : Hung (root s) where
  once := List.nodup_singleton _
  root := by
    intro n found
    obtain rfl := Option.some.inj found
    exact ⟨rfl, rfl⟩
  below := by
    intro above step n found
    rw [node?, PathTree.root, Assoc.find?_cons, if_neg (by simp)] at found
    contradiction

theorem keys_grow (new : ¬ t.Has path) :
    Assoc.keys (grow s t path).nodes = Assoc.keys t.nodes ++ [path] := by
  have absent : ¬ Assoc.contains path t.nodes = true := fun there =>
    new (Assoc.contains_iff.mp there)
  rw [grow, if_neg absent]
  simp only [Assoc.keys, List.map_append, List.map_map, List.map_singleton]
  congr 1
  refine List.map_congr_left fun pair _ => ?_
  simp only [Function.comp_apply]
  split <;> rfl

/-- Being told of a child changes nothing of how a node hangs. -/
theorem linked_hung (path other : Path) (n : PathNode) :
    (linked path other n).parent = n.parent ∧ (linked path other n).step = n.step := by
  unfold linked
  split <;> exact ⟨rfl, rfl⟩

/-- A new node hangs where its path says, and all others stay where they are. -/
theorem hung_grow (hung : Hung t) (rooted : t.Has []) : Hung (grow s t path) := by
  by_cases has : t.Has path
  · rwa [grow_of_has has]
  · refine ⟨?_, ?_, ?_⟩
    · rw [keys_grow has, ← List.concat_eq_append]
      exact hung.once.concat has
    · intro n found
      rcases of_node?_grow has found with ⟨old, there, rfl⟩ | ⟨rfl, rfl⟩
      · obtain ⟨parent, step⟩ := linked_hung path [] old
        rw [parent, step]
        exact hung.root old there
      · exact absurd rooted has
    · intro above step n found
      rcases of_node?_grow has found with ⟨old, there, rfl⟩ | ⟨rfl, rfl⟩
      · obtain ⟨sameParent, sameStep⟩ := linked_hung path (above ++ [step]) old
        rw [sameParent, sameStep]
        exact hung.below above step old there
      · exact ⟨congrArg some (List.dropLast_concat ..), List.getLast?_concat ..⟩

theorem hung_foldl_grow {way : List Path} (hung : Hung t) (rooted : t.Has []) :
    Hung (way.foldl (grow s) t) := by
  induction way generalizing t with
  | nil => exact hung
  | cons first rest ih => exact ih (hung_grow hung rooted) (has_grow.mpr (.inl rooted))

/-! ## What a tree spans -/

/-- Where no path of samples leads they hold nothing. -/
theorem nothing_at (away : path ∉ s.paths) : s.valuesAt path = [] ∧ s.keySetsAt path = [] := by
  obtain ⟨noBucket, noKeys⟩ := not_or.mp (mt Samples.mem_paths.mpr away)
  rw [Samples.valuesAt, Samples.keySetsAt, Assoc.find?_eq_none_iff.mpr noBucket,
    Assoc.find?_eq_none_iff.mpr noKeys]
  exact ⟨rfl, rfl⟩

/-- Of the paths one step below another, one at most ends in the wildcard. -/
theorem countP_wildcard_le {children : List Path} (distinct : children.Nodup)
    (below : ∀ child ∈ children, child ≠ [] ∧ child.dropLast = path) :
    children.countP (fun child => child.getLast?.any Segment.isWildcard) ≤ 1 := by
  have same : ∀ child ∈ children, child.getLast?.any Segment.isWildcard = true →
      (child == path ++ [Segment.wildcard]) = true := by
    intro child among isWildcard
    obtain ⟨notRoot, parent⟩ := below child among
    obtain ⟨above, last, rfl⟩ := (List.eq_nil_or_concat child).resolve_left notRoot
    rw [List.concat_eq_append] at isWildcard parent ⊢
    rw [List.dropLast_concat] at parent
    rw [List.getLast?_concat, Option.any_some, Segment.isWildcard, beq_iff_eq] at isWildcard
    rw [parent, isWildcard, beq_self_eq_true]
  calc children.countP (fun child => child.getLast?.any Segment.isWildcard)
    _ ≤ children.count (path ++ [.wildcard]) := List.countP_mono_left same
    _ ≤ 1 := List.nodup_iff_count_le_one.mp distinct _

/-- A tree that keeps to its samples and whose nodes hang where they should spans its paths. -/
theorem Grown.spans (grown : Grown s t) (hung : Hung t)
    (has : ∀ path, t.Has path ↔ path = [] ∨ ∃ below ∈ paths, path <+: below) :
    Spans s paths t where
  toHung := hung
  has := has
  known path n found child among := ((grown.children path n found child).mp among).1
  listed path n found other otherHas := by
    have distinct := grown.distinct path n found
    have among := grown.children path n found other
    split
    · rename_i isChild
      exact List.count_eq_one_of_mem distinct (among.mpr ⟨otherHas, isChild⟩)
    · rename_i noChild
      exact List.count_eq_zero.mpr fun there => noChild (among.mp there).2
  wildcards path n found := countP_wildcard_le (grown.distinct path n found)
    fun child among => ((grown.children path n found child).mp among).2
  values := grown.values
  created path n found away := by
    obtain ⟨values, keySets⟩ := grown.values path n found
    rw [values, keySets]
    exact nothing_at away

/-- A tree that spans some paths keeps to its samples. -/
theorem Spans.grown (spans : Spans s paths t) : Grown s t where
  rooted := (spans.has []).mpr (.inl rfl)
  parents path has := by
    rw [spans.has] at has ⊢
    rcases has with rfl | ⟨below, among, leads⟩
    · exact .inl rfl
    · exact .inr ⟨below, among, (List.dropLast_prefix path).trans leads⟩
  values := spans.values
  distinct path n found := by
    refine List.nodup_iff_count_le_one.mpr fun child => ?_
    by_cases among : child ∈ n.children
    · rw [spans.listed path n found child (spans.known path n found child among)]
      split <;> omega
    · rw [List.count_eq_zero.mpr among]
      exact Nat.zero_le 1
  children path n found child := by
    constructor
    · intro among
      have childHas := spans.known path n found child among
      have once := spans.listed path n found child childHas
      refine ⟨childHas, ?_⟩
      by_contra noChild
      rw [if_neg noChild] at once
      exact List.count_eq_zero.mp once among
    · rintro ⟨childHas, isChild⟩
      have once := spans.listed path n found child childHas
      rw [if_pos isChild] at once
      exact List.count_pos_iff.mp (by omega)

/-- One path more: what is missing on the way to it is made, and the tree spans it too. -/
theorem Spans.grow_way (spans : Spans s paths t) (path : Path) :
    Spans s (paths ++ [path]) ((Path.ancestry path).foldl (grow s) t) := by
  obtain ⟨grown, has⟩ := grown_ancestry spans.grown path
  refine grown.spans (hung_foldl_grow spans.toHung spans.grown.rooted) fun other => ?_
  rw [has, spans.has]
  simp [or_assoc, or_and_right, exists_or]

/-- However many paths have come, and in whatever order, the tree spans them. -/
theorem spans_foldl (s : Samples) (paths : List Path) :
    Spans s paths ((paths.flatMap Path.ancestry).foldl (grow s) (root s)) := by
  induction paths using List.reverseRecOn with
  | nil =>
    refine (grown_root s).spans (hung_root s) fun path => ?_
    simp [Has, PathTree.root, Assoc.keys]
  | append_singleton before path ih =>
    rw [List.flatMap_append, List.foldl_append, List.flatMap_singleton]
    exact ih.grow_way path

/-- The tree of samples spans their paths, whatever these are: it is a tree. -/
theorem spans_ofSamples (s : Samples) : Spans s s.paths (ofSamples s) := spans_foldl s s.paths

example : Assoc.keys (ofSamples { keySets := [([.key "a", .wildcard], [["b"]])] }).nodes =
    [[], [.key "a"], [.key "a", .wildcard]] := by decide

end SchemaInference.PathTree
