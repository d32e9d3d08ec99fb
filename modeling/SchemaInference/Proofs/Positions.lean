import SchemaInference.Inference
import SchemaInference.Proofs.Collection
import SchemaInference.Proofs.ScalarLabels
import SchemaInference.Proofs.StructureMeaning
import SchemaInference.Proofs.TreeNodes

/-! The positions of samples. Samples of whole documents are closed: the way to each of their paths
is there, and what stands below a path was in a list or a map there. Each flat path then has a node
that knows what was seen at it, and the structure of a position is read off that node alone. -/
namespace SchemaInference

/-- The names of the named children of a node. -/
def PathNode.names (n : PathNode) : List String :=
  n.named.map fun child => (child.getLast?.map Segment.text).getD ""

/-! ## Samples of whole documents -/

namespace Samples

/-- Samples that are closed: there is a root, the way to every path is there, paths are flat and
something was seen at each, and what lists and maps hold has paths of its own. -/
structure Closed (limit : Nat) (s : Samples) : Prop where
  root : [] ∈ s.paths
  parent : ∀ path step, path ++ [step] ∈ s.paths → path ∈ s.paths
  flat : ∀ path ∈ s.paths, path.flat = path
  seen : ∀ path ∈ s.paths, s.valuesAt path ≠ [] ∨ s.keySetsAt path ≠ []
  items : ∀ path v items, path.length ≤ limit → v ∈ s.valuesAt path → v.items? = some items →
    items ≠ [] → path ++ [.wildcard] ∈ s.paths
  keys : ∀ path keys, keys ∈ s.keySetsAt path → ∀ name ∈ keys, path ++ [.key name] ∈ s.paths

theorem closed_ofDocuments {limit : Nat} {documents : List Value} (filled : documents ≠ []) :
    Closed limit (ofDocuments limit documents) where
  root := by
    obtain ⟨document, member⟩ := List.exists_mem_of_ne_nil documents filled
    exact mem_paths_ofDocuments.mpr ⟨document, member, [], document, .here document, by simp, rfl⟩
  parent := by
    intro path step there
    obtain ⟨document, member, concrete, w, holds, bounded, same⟩ := mem_paths_ofDocuments.mp there
    obtain ⟨front, last, rfl, frontSame, -⟩ := Path.eq_concat_of_flat same
    obtain ⟨u, above, -⟩ := holds.parent
    rw [List.length_append] at bounded
    exact mem_paths_ofDocuments.mpr ⟨document, member, front, u, above, by omega, frontSame⟩
  flat := by
    intro path there
    obtain ⟨document, member, concrete, w, holds, bounded, rfl⟩ := mem_paths_ofDocuments.mp there
    exact Path.flat_idem concrete
  seen := by
    intro path there
    obtain ⟨document, member, concrete, w, holds, bounded, rfl⟩ := mem_paths_ofDocuments.mp there
    rcases seen_of_holds member holds bounded with seen | ⟨form, entries, -, keys⟩
    · exact .inl (List.ne_nil_of_mem seen)
    · exact .inr (List.ne_nil_of_mem keys)
  items := by
    intro path v items shallow there isList filled
    obtain ⟨document, member, concrete, holds, rfl, bounded⟩ := mem_valuesAt_ofDocuments.mp there
    obtain ⟨form, rfl⟩ : ∃ form, v = .list form items := by
      cases v <;> simp [Value.items?] at isList
      exact ⟨_, by rw [isList]⟩
    obtain ⟨first, rest, rfl⟩ := List.exists_cons_of_ne_nil filled
    have below : (Value.list form (first :: rest)).Holds [.item 0] first := .item rfl (.here first)
    rw [Path.length_flat] at shallow
    exact mem_paths_ofDocuments.mpr ⟨document, member, concrete ++ [.item 0], first,
      holds.trans below, by simpa using shallow, by simp [Path.flat, Segment.item]⟩
  keys := by
    intro path keys there name member
    obtain ⟨document, documentMember, concrete, form, entries, holds, rfl, shallow, rfl⟩ :=
      mem_keySetsAt_ofDocuments.mp there
    obtain ⟨entry, entryMember, rfl⟩ := List.mem_map.mp member
    have below : (Value.map form entries).Holds [.key entry.1.alone] entry.2 :=
      .entry entryMember (.here entry.2)
    exact mem_paths_ofDocuments.mpr ⟨document, documentMember, concrete ++ [.key entry.1.alone],
      entry.2, holds.trans below, by simpa using shallow, by simp [Path.flat]⟩

variable {s : Samples} {limit : Nat} {path : Path}

/-- Every way to a path of closed samples is a path of theirs. -/
theorem Closed.mem_of_below (closed : s.Closed limit) {below : Path} (there : below ∈ s.paths)
    (above : path <+: below) : path ∈ s.paths := by
  obtain ⟨rest, rfl⟩ := above
  induction rest using List.reverseRecOn with
  | nil => simpa using there
  | append_singleton rest step ih =>
    rw [← List.append_assoc] at there
    exact ih (closed.parent _ _ there)

theorem Closed.has_iff (closed : s.Closed limit) :
    (PathTree.ofSamples s).Has path ↔ path ∈ s.paths := by
  rw [(PathTree.grown_ofSamples s).2]
  constructor
  · rintro (rfl | ⟨below, there, above⟩)
    · exact closed.root
    · exact closed.mem_of_below there above
  · exact fun there => .inr ⟨path, there, List.prefix_rfl⟩

/-- The last step to a node below the root is a key or the wildcard. -/
theorem Closed.last_step (closed : s.Closed limit) {step : Segment}
    (there : path ++ [step] ∈ s.paths) : step = .wildcard ∨ ∃ name, step = .key name := by
  have flat := closed.flat _ there
  rw [Path.flat_append] at flat
  have same := List.append_inj_right' flat rfl
  cases step with
  | key name => exact .inr ⟨name, rfl⟩
  | index position => exact .inl (by simpa [Path.flat] using same.symm)

/-- What the tree of closed samples has at a path of theirs. -/
structure NodeOf (s : Samples) (path : Path) (n : PathNode) : Prop where
  found : (PathTree.ofSamples s).node? path = some n
  values : n.values = s.valuesAt path
  keySets : n.keySets = s.keySetsAt path
  distinct : n.children.Nodup
  children : ∀ child, child ∈ n.children ↔ ∃ step, child = path ++ [step] ∧ child ∈ s.paths

theorem Closed.exists_node (closed : s.Closed limit) (there : path ∈ s.paths) :
    ∃ n, s.NodeOf path n := by
  obtain ⟨grown, -⟩ := PathTree.grown_ofSamples s
  obtain ⟨n, found⟩ := PathTree.has_iff.mp (closed.has_iff.mpr there)
  refine ⟨n, found, (grown.values path n found).1, (grown.values path n found).2,
    grown.distinct path n found, fun child => ?_⟩
  rw [grown.children path n found, closed.has_iff]
  constructor
  · rintro ⟨childThere, notRoot, rfl⟩
    exact ⟨child.getLast notRoot, (List.dropLast_append_getLast notRoot).symm, childThere⟩
  · rintro ⟨step, rfl, childThere⟩
    exact ⟨childThere, by simp, by simp⟩

/-- Induction over positions, from the greatest depth up. -/
@[elab_as_elim]
theorem Closed.position_induction (closed : s.Closed limit) {motive : Path → Prop}
    (deep : ∀ path ∈ s.paths, limit < path.length → motive path)
    (shallow : ∀ path n, s.NodeOf path n → path ∈ s.paths → path.length ≤ limit →
      (∀ step, path ++ [step] ∈ s.paths → motive (path ++ [step])) → motive path)
    {path : Path} (there : path ∈ s.paths) : motive path := by
  by_cases isDeep : limit < path.length
  · exact deep path there isDeep
  · obtain ⟨n, node⟩ := closed.exists_node there
    exact shallow path n node there (Nat.le_of_not_lt isDeep) fun step below =>
      closed.position_induction deep shallow below
termination_by limit + 1 - path.length
decreasing_by
  rw [List.length_append, List.length_singleton]
  omega

variable {n : PathNode}

theorem NodeOf.mem_named (node : s.NodeOf path n) (closed : s.Closed limit) (child : Path) :
    child ∈ n.named ↔ ∃ name, child = path ++ [.key name] ∧ child ∈ s.paths := by
  rw [PathNode.named, List.mem_filter, node.children]
  constructor
  · rintro ⟨⟨step, rfl, there⟩, notWildcard⟩
    rcases closed.last_step there with rfl | ⟨name, rfl⟩
    · simp [Segment.isWildcard] at notWildcard
    · exact ⟨name, rfl, there⟩
  · rintro ⟨name, rfl, there⟩
    exact ⟨⟨_, rfl, there⟩, by simp⟩

/-- The named children are one step below their node, each by its name. -/
theorem NodeOf.named_eq (node : s.NodeOf path n) (closed : s.Closed limit) :
    n.named = n.names.map fun name => path ++ [.key name] := by
  rw [PathNode.names, List.map_map]
  refine ((List.map_congr_left fun child member => ?_).trans (List.map_id _)).symm
  obtain ⟨name, rfl, -⟩ := (node.mem_named closed child).mp member
  simp [Segment.text]

theorem NodeOf.names_nodup (node : s.NodeOf path n) (closed : s.Closed limit) : n.names.Nodup := by
  have distinct : n.named.Nodup := node.distinct.filter _
  rw [node.named_eq closed] at distinct
  exact distinct.of_map

theorem NodeOf.mem_names (node : s.NodeOf path n) (closed : s.Closed limit) {name : String} :
    name ∈ n.names ↔ path ++ [.key name] ∈ s.paths := by
  have there := node.mem_named closed (path ++ [Segment.key name])
  rw [node.named_eq closed] at there
  simpa using there

/-- The child for the items of lists. -/
theorem NodeOf.element? (node : s.NodeOf path n) :
    n.element? = if path ++ [.wildcard] ∈ s.paths then some (path ++ [.wildcard]) else none := by
  have only (child : Path) (member : child ∈ n.children)
      (wild : child.getLast?.any Segment.isWildcard = true) :
      child = path ++ [Segment.wildcard] := by
    obtain ⟨step, rfl, -⟩ := (node.children child).mp member
    have isWildcard : step = .wildcard := by simpa [Segment.isWildcard] using wild
    rw [isWildcard]
  unfold PathNode.element?
  split
  · rename_i there
    obtain ⟨child, found⟩ : ∃ child,
        n.children.find? (fun path => path.getLast?.any Segment.isWildcard) = some child := by
      rw [← Option.isSome_iff_exists, List.find?_isSome]
      exact ⟨_, (node.children _).mpr ⟨_, rfl, there⟩, by simp [Segment.isWildcard]⟩
    obtain ⟨wild, -⟩ := List.find?_eq_some_iff_append.mp found
    rw [found, only child (List.mem_of_find?_eq_some found) wild]
  · rename_i notThere
    rw [List.find?_eq_none]
    intro child member wild
    obtain ⟨step, same, there⟩ := (node.children child).mp member
    exact notThere (only child member wild ▸ there)

/-- Something was seen at every position. Where it was neither scalars nor lists nor maps, it was
null. -/
theorem NodeOf.nullable_of_empty (node : s.NodeOf path n) (closed : s.Closed limit)
    (there : path ∈ s.paths) (noScalars : n.scalars = []) (noLists : n.lists = [])
    (noKeySets : n.keySets = []) : n.nullable = true := by
  have values : n.values ≠ [] := by
    rw [node.values]
    refine (closed.seen path there).resolve_right fun filled => filled ?_
    rw [← node.keySets, noKeySets]
  obtain ⟨v, member⟩ := List.exists_mem_of_ne_nil _ values
  refine List.any_eq_true.mpr ⟨v, member, ?_⟩
  have notScalar := List.filter_eq_nil_iff.mp noScalars v member
  have notList := List.filter_eq_nil_iff.mp noLists v member
  simpa [notList] using notScalar

/-! ## Predictions -/

/-- The enumeration that is predicted at a path of samples is that of its texts. -/
theorem enumAt_typePredictions (c : Config) (there : path ∈ s.paths) :
    enumAt (s.typePredictions c) path = enumOf? c ((s.valuesAt path).filterMap Value.text?) := by
  have found : Assoc.find? path (s.typePredictions c) = some (.ofValues c (s.lacksLast path)
      (s.hasMap path) (c.maxDepth + 1) (s.valuesAt path)) :=
    Assoc.find?_map_of_mem _ there
  rw [enumAt, found]
  rfl

end Samples
end SchemaInference
