import SchemaInference.Proofs.PositionAcceptance
import SchemaInference.Proofs.Refusals

/-! What inference sees of the values that are filed: of a leaf all there is, of a list or a map
only that it is one. What they hold reaches the schema through the positions below alone. Samples at
the same paths whose values are alike in this way give the same schema, and decisions on records
come to the same values in them. -/
namespace SchemaInference

namespace Value

/-- Values that are alike on the face: the same one, or two lists, or two maps. -/
inductive Resembles : Value → Value → Prop where
  | same (v : Value) : Resembles v v
  | lists (form form' : ListForm) (items items' : List Value) :
      Resembles (.list form items) (.list form' items')
  | maps (form form' : MapForm) (entries entries' : List (Value × Value)) :
      Resembles (.map form entries) (.map form' entries')

variable {v v' : Value} {values values' : List Value}

theorem Resembles.symm (like : v.Resembles v') : v'.Resembles v := by
  cases like with
  | same => exact .same v
  | lists => exact .lists ..
  | maps => exact .maps ..

theorem Resembles.tag_eq (like : v.Resembles v') : v'.tag = v.tag := by
  cases like <;> rfl

theorem Resembles.isNull_eq (like : v.Resembles v') : v'.isNull = v.isNull := by
  cases like <;> rfl

theorem Resembles.isList_eq (like : v.Resembles v') : v'.isList = v.isList := by
  cases like <;> rfl

theorem Resembles.text?_eq (like : v.Resembles v') : v'.text? = v.text? := by
  cases like <;> rfl

/-- Leaves that are alike are the same. -/
theorem Resembles.eq_of_leaf (like : v.Resembles v') (leaf : v.isList = false ∧ v.isMap = false) :
    v' = v := by
  cases like with
  | same => rfl
  | lists => cases leaf.1
  | maps => cases leaf.2

/-- What is read off the face of values is read off values that are alike. -/
theorem filterMap_resembles {β : Type} {read : Value → Option β}
    (alike : List.Forall₂ Resembles values values')
    (seen : ∀ {v v'}, Resembles v v' → read v' = read v) :
    values'.filterMap read = values.filterMap read := by
  induction alike with
  | nil => rfl
  | cons like _ ih => rw [List.filterMap_cons, List.filterMap_cons, ih, seen like]

theorem any_resembles {test : Value → Bool} (alike : List.Forall₂ Resembles values values')
    (seen : ∀ {v v'}, Resembles v v' → test v' = test v) :
    values'.any test = values.any test := by
  induction alike with
  | nil => rfl
  | cons like _ ih => rw [List.any_cons, List.any_cons, ih, seen like]

end Value

namespace PathTree

/-- The paths of a tree with the children of each. -/
def links (t : PathTree) : List (Path × List Path) :=
  t.nodes.map fun pair => (pair.1, pair.2.children)

variable {s s' : Samples} {t t' : PathTree}

theorem find?_links (t : PathTree) (path : Path) :
    Assoc.find? path t.links = (t.node? path).map PathNode.children :=
  Assoc.find?_map (fun _ => PathNode.children) path t.nodes

theorem contains_links (t : PathTree) (path : Path) :
    Assoc.contains path t.links = Assoc.contains path t.nodes := by
  rw [Assoc.contains, Assoc.contains, find?_links, Option.isSome_map]
  rfl

/-- How a tree grows does not depend on what was seen. -/
theorem links_grow (same : t'.links = t.links) (path : Path) :
    (grow s' t' path).links = (grow s t path).links := by
  have step (s : Samples) (t : PathTree) : (grow s t path).links =
      if Assoc.contains path t.links then t.links
      else (t.links.map fun pair => if pair.1 = path.dropLast then (pair.1, pair.2 ++ [path])
        else pair) ++ [(path, [])] := by
    rw [contains_links, grow]
    split
    · rfl
    · simp only [links, List.map_append, List.map_map, List.map_cons, List.map_nil]
      congr 1
      apply List.map_congr_left
      intro pair _
      simp only [Function.comp_apply]
      split <;> rfl
  rw [step, step, same]

theorem links_ofSamples (same : s'.paths = s.paths) :
    (ofSamples s').links = (ofSamples s).links := by
  have run (paths : List Path) {t t' : PathTree} (same : t'.links = t.links) :
      (paths.foldl (grow s') t').links = (paths.foldl (grow s) t).links := by
    induction paths generalizing t t' with
    | nil => exact same
    | cons path rest ih => exact ih (links_grow same path)
  rw [ofSamples, ofSamples, same]
  exact run _ rfl

end PathTree

namespace Samples

/-- Samples that are alike on the face: the same paths and key sets, and values that are alike. -/
structure Resembles (s s' : Samples) : Prop where
  paths : s'.paths = s.paths
  keySets : ∀ path, s'.keySetsAt path = s.keySetsAt path
  values : ∀ path, List.Forall₂ Value.Resembles (s.valuesAt path) (s'.valuesAt path)

variable {s s' : Samples} {c : Config} {limit : Nat} {path : Path} {n n' : PathNode}

theorem Resembles.symm (like : s.Resembles s') : s'.Resembles s where
  paths := like.paths.symm
  keySets path := (like.keySets path).symm
  values path := (like.values path).flip.imp fun _ _ => Value.Resembles.symm

/-! ## Nodes -/

theorem Resembles.children_eq (like : s.Resembles s') (node : s.NodeOf path n)
    (node' : s'.NodeOf path n') : n'.children = n.children := by
  have links := PathTree.find?_links (PathTree.ofSamples s') path
  rw [PathTree.links_ofSamples like.paths, PathTree.find?_links, node.found, node'.found] at links
  exact (Option.some.inj links).symm

theorem Resembles.named_eq (like : s.Resembles s') (node : s.NodeOf path n)
    (node' : s'.NodeOf path n') : n'.named = n.named := by
  rw [PathNode.named, PathNode.named, like.children_eq node node']

theorem Resembles.names_eq (like : s.Resembles s') (node : s.NodeOf path n)
    (node' : s'.NodeOf path n') : n'.names = n.names := by
  rw [PathNode.names, PathNode.names, like.named_eq node node']

theorem Resembles.keySets_eq (like : s.Resembles s') (node : s.NodeOf path n)
    (node' : s'.NodeOf path n') : n'.keySets = n.keySets := by
  rw [node.keySets, node'.keySets, like.keySets]

theorem Resembles.nodeValues (like : s.Resembles s') (node : s.NodeOf path n)
    (node' : s'.NodeOf path n') : List.Forall₂ Value.Resembles n.values n'.values := by
  rw [node.values, node'.values]
  exact like.values path

theorem Resembles.nullable_eq (like : s.Resembles s') (node : s.NodeOf path n)
    (node' : s'.NodeOf path n') : n'.nullable = n.nullable :=
  Value.any_resembles (like.nodeValues node node') Value.Resembles.isNull_eq

theorem Resembles.lists_eq_nil_iff (like : s.Resembles s') (node : s.NodeOf path n)
    (node' : s'.NodeOf path n') : n'.lists = [] ↔ n.lists = [] := by
  have any := Value.any_resembles (like.nodeValues node node') Value.Resembles.isList_eq
  rw [Bool.eq_iff_iff, List.any_eq_true, List.any_eq_true] at any
  rw [← not_iff_not, PathNode.lists, PathNode.lists]
  simpa [List.filter_eq_nil_iff] using any

theorem Resembles.scalarMembers_eq (like : s.Resembles s') (node : s.NodeOf path n)
    (node' : s'.NodeOf path n') : scalarMembers c n' = scalarMembers c n := by
  have values := like.nodeValues node node'
  have tagsOf (n : PathNode) : n.scalars.map Value.tag =
      n.values.filterMap fun v =>
        if v.isNull = false ∧ v.isList = false then some v.tag else none := by
    rw [PathNode.scalars, ← List.filterMap_eq_filter, List.map_filterMap]
    apply List.filterMap_congr
    intro v _
    by_cases scalar : v.isNull = false ∧ v.isList = false <;> simp [Option.guard, scalar]
  have tags : n'.scalars.map Value.tag = n.scalars.map Value.tag := by
    rw [tagsOf, tagsOf]
    apply Value.filterMap_resembles values
    intro v v' like
    rw [like.isNull_eq, like.isList_eq, like.tag_eq]
  rw [scalarMembers, scalarMembers, tags, Value.filterMap_resembles values Value.Resembles.text?_eq]

/-! ## Records -/

/-- Where nothing but leaves was seen, the very same was seen. -/
theorem Resembles.valuesAt_eq (like : s.Resembles s') (leaf : s.IsLeaf path) :
    s'.valuesAt path = s.valuesAt path := by
  have values := like.values path
  have leaves := leaf.values
  generalize s.valuesAt path = seen, s'.valuesAt path = seen' at values leaves
  induction values with
  | nil => rfl
  | cons like _ ih =>
    obtain ⟨first, rest⟩ := List.forall_mem_cons.mp leaves
    rw [like.eq_of_leaf first, ih rest]

theorem Resembles.isLeaf (like : s.Resembles s') (leaf : s.IsLeaf path) : s'.IsLeaf path where
  childless := by
    rw [like.paths]
    exact leaf.childless
  keySets := by
    rw [like.keySets]
    exact leaf.keySets
  values := by
    rw [like.valuesAt_eq leaf]
    exact leaf.values

theorem Resembles.isLeaf_iff (like : s.Resembles s') : s'.IsLeaf path ↔ s.IsLeaf path :=
  ⟨like.symm.isLeaf, like.isLeaf⟩

theorem Resembles.recordPattern?_eq (like : s.Resembles s') (node : s.NodeOf path n)
    (node' : s'.NodeOf path n') :
    PathTree.recordPattern? c n' = PathTree.recordPattern? c n := by
  simp only [PathTree.recordPattern?, PathTree.childSteps, like.named_eq node node']

theorem Resembles.valuesUnder_eq (like : s.Resembles s') {names : List String}
    (leaves : ∀ name ∈ names, s.IsLeaf (path ++ [.key name])) :
    s'.valuesUnder path names = s.valuesUnder path names := by
  unfold valuesUnder
  apply List.flatMap_congr
  intro name among
  exact like.valuesAt_eq (leaves name among)

/-- Samples that are alike make the same records. -/
theorem Resembles.record?_eq (like : s.Resembles s') (closed : s.Closed limit)
    (closed' : s'.Closed limit) (node : s.NodeOf path n) (node' : s'.NodeOf path n') :
    (PathTree.ofSamples s').record? c n' = (PathTree.ofSamples s).record? c n := by
  apply Option.ext
  intro record
  rw [node.record?_eq_some_iff closed, node'.record?_eq_some_iff closed',
    like.recordPattern?_eq node node', like.names_eq node node']
  simp only [like.isLeaf_iff]
  refine exists_congr fun pattern => and_congr_right fun _ => and_congr_right fun leaves => ?_
  rw [labelUnder, labelUnder, tagsUnder, tagsUnder, like.valuesUnder_eq leaves]

/-- In samples that are alike the decisions on records come to the same values. -/
theorem Resembles.comesTo (like : s.Resembles s') (closed : s.Closed limit)
    (closed' : s'.Closed limit) {v : Value} (comes : s.ComesTo c path v) : s'.ComesTo c path v := by
  obtain ⟨shallow, n, node, pattern, before, name, after, names, leaves, seen⟩ := comes
  obtain ⟨n', node'⟩ := closed'.exists_node (like.paths ▸ node.mem_paths closed)
  have leaf : s.IsLeaf (path ++ [Segment.key name]) := leaves name (by simp)
  refine ⟨shallow, n', node', ?_, before, name, after, ?_, ?_, ?_⟩
  · rw [like.recordPattern?_eq node node']
    exact pattern
  · rw [like.names_eq node node']
    exact names
  · intro other among
    exact like.isLeaf (leaves other among)
  · rw [like.valuesAt_eq leaf]
    exact seen

/-! ## Schemas -/

theorem Resembles.listMembers_eq (like : s.Resembles s') (node : s.NodeOf path n)
    (node' : s'.NodeOf path n')
    (below : path ++ [.wildcard] ∈ s.paths →
      s'.schemaAt c (path ++ [.wildcard]) = s.schemaAt c (path ++ [.wildcard])) :
    s'.listMembers c n' = s.listMembers c n := by
  by_cases none : n.lists = []
  · have none' := (like.lists_eq_nil_iff node node').mpr none
    simp [listMembers, none, none']
  · have filled' := mt (like.lists_eq_nil_iff node node').mp none
    rw [listMembers_of_filled none, listMembers_of_filled filled', node.element?, node'.element?,
      like.paths]
    split
    · rename_i there
      rw [Option.map_some, Option.map_some, below there]
    · rw [Option.map_none, Option.map_none]

theorem Resembles.mapMembers_eq (like : s.Resembles s') (closed : s.Closed limit)
    (closed' : s'.Closed limit) (node : s.NodeOf path n) (node' : s'.NodeOf path n')
    (shallow : path.length ≤ c.maxDepth)
    (below : ∀ name ∈ n.names,
      s'.schemaAt c (path ++ [.key name]) = s.schemaAt c (path ++ [.key name])) :
    s'.mapMembers c path n' = s.mapMembers c path n := by
  have fields : s'.fieldsAt c path n' = s.fieldsAt c path n := by
    rw [fieldsAt, fieldsAt, like.names_eq node node']
    apply List.map_congr_left
    intro name among
    rw [below name among, PathNode.lacks, PathNode.lacks, like.keySets_eq node node']
  have keySets := like.keySets_eq node node'
  have record := like.record?_eq (c := c) closed closed' node node'
  by_cases none : n.keySets = []
  · rw [mapMembers_of_empty none, mapMembers_of_empty (keySets.trans none)]
  · have filled' : n'.keySets ≠ [] := keySets ▸ none
    cases found : (PathTree.ofSamples s).record? c n with
    | none =>
      rw [mapMembers_of_object none found, mapMembers_of_object filled' (record.trans found),
        fields]
    | some record =>
      obtain ⟨pattern, stem, label, rfl⟩ := PathTree.record?_eq_some found
      rw [mapMembers_of_record shallow none found,
        mapMembers_of_record shallow filled' (record.trans found)]

/-- Samples that are alike give every position the same schema. -/
theorem Resembles.schemaAt_eq (like : s.Resembles s') (closed : s.Closed c.maxDepth)
    (closed' : s'.Closed c.maxDepth) {levels : Nat} (there : path ∈ s.paths)
    (depth : path.length + levels = c.maxDepth + 1) :
    s'.schemaAt c path = s.schemaAt c path := by
  induction levels generalizing path with
  | zero => rw [schemaAt_of_deep (by omega), schemaAt_of_deep (by omega)]
  | succ levels ih =>
    have shallow : path.length ≤ c.maxDepth := by omega
    have there' : path ∈ s'.paths := like.paths ▸ there
    obtain ⟨n, node⟩ := closed.exists_node there
    obtain ⟨n', node'⟩ := closed'.exists_node there'
    have lists : s'.listMembers c n' = s.listMembers c n :=
      like.listMembers_eq node node' fun below => ih below (Path.length_concat_add _ depth)
    have maps : s'.mapMembers c path n' = s.mapMembers c path n := by
      apply like.mapMembers_eq closed closed' node node' shallow
      intro name among
      exact ih ((node.mem_names closed).mp among) (Path.length_concat_add _ depth)
    rw [Samples.schemaAt_eq closed node there shallow,
      Samples.schemaAt_eq closed' node' there' shallow, like.nullable_eq node node',
      like.scalarMembers_eq node node', lists, maps]

end Samples

/-- Documents whose samples are alike on the face have the same prediction, if their keys can be
written. -/
theorem predict_of_resembles {c : Config} {first first' : Value} {rest rest' : List Value}
    {schema : Schema} (returned : predict c (first :: rest) = .ok schema)
    (written : Room.refusal? none (Samples.writingSteps c (first' :: rest')) = none)
    (like : (samplesOf c (first :: rest)).Resembles (samplesOf c (first' :: rest'))) :
    predict c (first' :: rest') = .ok schema := by
  have filled : first :: rest ≠ [] := List.cons_ne_nil first rest
  have filled' : first' :: rest' ≠ [] := List.cons_ne_nil first' rest'
  have closed : (samplesOf c (first :: rest)).Closed c.maxDepth := Samples.closed_ofDocuments filled
  have closed' : (samplesOf c (first' :: rest')).Closed c.maxDepth :=
    Samples.closed_ofDocuments filled'
  have goesOn := Samples.not_failsAt_of_told filled (not_refused_of_predict returned)
  have told : Room.refusal? none (Samples.decidingSteps c (first' :: rest')) = none :=
    Samples.told_of_not_failsAt filled' fun path cause ⟨v, comes, refused⟩ =>
      goesOn path cause ⟨v, like.symm.comesTo closed' closed comes, refused⟩
  obtain ⟨-, rfl⟩ := predict_eq returned
  rw [predict_eq_map, analyze_of_unrefused written told,
    ← like.schemaAt_eq closed closed' closed.root (Nat.zero_add (c.maxDepth + 1))]
  rfl

end SchemaInference
