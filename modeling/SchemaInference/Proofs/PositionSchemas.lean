import SchemaInference.Proofs.Positions

/-! The schema of a position. At every flat path of some samples, the schema that inference builds
there is put together from what was seen at that path alone and from the schemas one step below: one
alternative for each tag of a scalar, one for lists, one for maps, and null beside them. -/
namespace SchemaInference

namespace Schema
variable {c : Config} {predictions : Predictions} {path : Path} {depth : Nat}

/-- Alternatives, and null beside them. -/
def besideNull (nullable : Bool) (members : List Schema) : Schema :=
  match members with
  | [] => .null
  | members => if nullable then .nullable (ofAlternatives members) else ofAlternatives members

@[simp] theorem flags_makeOptional (s : Structure) :
    s.makeOptional.flags = { s.flags with optional := true } := by
  simp [Structure.makeOptional]

theorem ofStructureAt_makeOptional (s : Structure) :
    ofStructureAt c predictions path depth s.makeOptional =
      ofStructureAt c predictions path depth s := by
  cases s with
  | array flags element itemDepth tags => cases element <;> rfl
  | _ => rfl

theorem guarded_of_shallow (shallow : depth ≤ c.maxDepth) (flags : Flags) (s : Schema) :
    guarded c depth flags s = if flags.nullable then s.orNull else s := by
  rw [guarded, if_neg (by omega)]

theorem guarded_plain (shallow : depth ≤ c.maxDepth) (s : Schema) : guarded c depth {} s = s := by
  rw [guarded_of_shallow shallow]
  rfl

/-- An option without marks of its own takes those of the whole position. -/
theorem ofStructureAt_setNullable (shallow : depth ≤ c.maxDepth) {s : Structure}
    (plain : s.flags = {}) (nullable : Bool) :
    ofStructureAt c predictions path depth (s.setNullable nullable) =
      if nullable then (ofStructureAt c predictions path depth s).orNull
      else ofStructureAt c predictions path depth s := by
  cases s with
  | array flags element itemDepth tags =>
    obtain rfl : flags = {} := plain
    cases element <;> simp [Structure.setNullable, Structure.withFlags, Structure.flags,
      ofStructureAt, guarded_of_shallow shallow]
  | primitive flags | record flags | object flags | mixed flags =>
    obtain rfl : flags = {} := plain
    simp [Structure.setNullable, Structure.withFlags, Structure.flags, ofStructureAt,
      guarded_of_shallow shallow]

theorem besideNull_eq {nullable : Bool} {members : List Schema} (filled : members ≠ [])
    (apart : Apart members) : besideNull nullable members =
      if nullable then (ofAlternatives members).orNull else ofAlternatives members := by
  rw [besideNull, orNull_ofAlternatives apart filled]
  exact fun none => filled none

/-- The schema of a position takes the alternatives of all its options. -/
theorem ofStructureAt_ofOptions (shallow : depth ≤ c.maxDepth) {options : List Structure}
    (filled : options ≠ []) (plain : ∀ option ∈ options, option.flags = {})
    (whole : ∀ option ∈ options,
      let schema := ofStructureAt c predictions path depth option
      schema.alternatives ≠ [] ∧ ofAlternatives schema.alternatives = schema)
    (apart : Apart ((options.map (ofStructureAt c predictions path depth)).flatMap alternatives))
    (nullable : Bool) :
    ofStructureAt c predictions path depth (.ofOptions nullable options) =
      besideNull nullable
        ((options.map (ofStructureAt c predictions path depth)).flatMap alternatives) := by
  match options with
  | [] => contradiction
  | [only] =>
    obtain ⟨onlyFilled, onlyWhole⟩ := whole only List.mem_cons_self
    have alone : ([only].map (ofStructureAt c predictions path depth)).flatMap alternatives =
        (ofStructureAt c predictions path depth only).alternatives := by simp
    rw [alone] at apart ⊢
    rw [besideNull_eq onlyFilled apart, onlyWhole]
    exact ofStructureAt_setNullable shallow (plain only List.mem_cons_self) nullable
  | first :: second :: rest =>
    have firstFilled := (whole first List.mem_cons_self).1
    rw [besideNull_eq (by simp [firstFilled]) apart, ← anyOf_of_apart apart, ← optionsOf_eq]
    simp [Structure.ofOptions, ofStructureAt, guarded_of_shallow shallow]

end Schema

namespace PathTree
variable {t : PathTree} {c : Config} {n : PathNode}

/-! ## Options -/

/-- The option for the lists at a node. -/
def arrayOption (t : PathTree) (c : Config) (levels : Nat) (n : PathNode) : Structure :=
  .array {} (n.element?.map (t.structureAt c levels)) n.arrayDepth n.itemTags

/-- The option for the maps at a node that make no record. -/
def objectOption (t : PathTree) (c : Config) (levels : Nat) (n : PathNode) : Structure :=
  .object {} <| n.named.map fun child =>
    let name := (child.getLast?.map Segment.text).getD ""
    let s := t.structureAt c levels child
    (name, if n.lacks name then s.makeOptional else s)

/-- All options at a node. -/
def options (t : PathTree) (c : Config) (levels : Nat) (n : PathNode) : List Structure :=
  n.scalarOption ++ (if n.lists.isEmpty then [] else [t.arrayOption c levels n]) ++
    if n.keySets.isEmpty then [] else [(t.record? c n).getD (t.objectOption c levels n)]

theorem structureAt_succ (t : PathTree) (c : Config) (levels : Nat) (path : Path) :
    t.structureAt c (levels + 1) path =
      match t.node? path with
      | none => .anything
      | some n => .ofOptions n.nullable (t.options c levels n) := by
  rw [structureAt]
  cases t.node? path with
  | none => rfl
  | some n =>
    simp only [options]
    cases t.record? c n <;> rfl

/-- A record has no marks of its own. -/
theorem record?_eq_some {record : Structure} (found : t.record? c n = some record) :
    ∃ pattern stem label, record = .record {} pattern stem label := by
  unfold record? at found
  split at found
  · contradiction
  · dsimp only at found
    split at found
    · exact ⟨_, _, _, (Option.some.inj found).symm⟩
    · contradiction

/-- The options of a node are scalars, an array, and a record or an object, none with marks. -/
theorem mem_options {levels : Nat} {option : Structure} (member : option ∈ t.options c levels n) :
    (∃ label, option = .primitive {} label) ∨
      (∃ element depth tags, option = .array {} element depth tags) ∨
      (∃ pattern stem label, option = .record {} pattern stem label) ∨
      ∃ children, option = .object {} children := by
  rw [options, List.mem_append, List.mem_append] at member
  rcases member with (scalar | array) | map
  · unfold PathNode.scalarOption at scalar
    split at scalar
    · cases scalar
    · exact .inl ⟨_, List.mem_singleton.mp scalar⟩
  · split at array
    · cases array
    · exact .inr (.inl ⟨_, _, _, List.mem_singleton.mp array⟩)
  · split at map
    · cases map
    · rw [List.mem_singleton] at map
      subst map
      cases found : t.record? c n with
      | none => exact .inr (.inr (.inr ⟨_, rfl⟩))
      | some record => exact .inr (.inr (.inl (record?_eq_some found)))

theorem flags_of_mem_options {levels : Nat} {option : Structure}
    (member : option ∈ t.options c levels n) : option.flags = {} := by
  rcases mem_options member with
    ⟨_, rfl⟩ | ⟨_, _, _, rfl⟩ | ⟨_, _, _, rfl⟩ | ⟨_, rfl⟩ <;> rfl

/-- A position is not optional by itself. Its parent makes it so. -/
theorem structureAt_optional (t : PathTree) (c : Config) (levels : Nat) (path : Path) :
    (t.structureAt c levels path).flags.optional = false := by
  cases levels with
  | zero => rfl
  | succ levels =>
    rw [structureAt_succ]
    split
    · rfl
    · rename_i n _
      have plain (option : Structure) (member : option ∈ t.options c levels n) :
          option.flags = {} := flags_of_mem_options member
      match t.options c levels n, plain with
      | [], _ => rfl
      | [only], plain =>
        simp [Structure.ofOptions, Structure.setNullable, plain only List.mem_cons_self]
      | first :: second :: rest, _ => rfl

end PathTree

namespace Samples
open Schema

/-- The schema of the position at a path. -/
def schemaAt (s : Samples) (c : Config) (path : Path) : Schema :=
  .ofStructureAt c (s.typePredictions c) path path.length
    ((PathTree.ofSamples s).structureAt c (c.maxDepth + 1 - path.length) path)

/-- The alternatives for the scalars at a node, one for each tag. -/
def scalarMembers (c : Config) (n : PathNode) : List Schema :=
  (sortTags (n.scalars.map Value.tag)).map
    (scalarOf (enumOf? c (n.values.filterMap Value.text?)))

/-- The alternative for the lists at a node. -/
def listMembers (s : Samples) (c : Config) (n : PathNode) : List Schema :=
  if n.lists.isEmpty then []
  else [.list ((n.element?.map (s.schemaAt c)).getD .any)]

/-- The fields of the maps at a node, if they make no record. -/
def fieldsAt (s : Samples) (c : Config) (path : Path) (n : PathNode) :
    List (String × Bool × Schema) :=
  n.names.map fun name => (name, n.lacks name, s.schemaAt c (path ++ [.key name]))

/-- The alternative for the maps at a node. -/
def mapMembers (s : Samples) (c : Config) (path : Path) (n : PathNode) : List Schema :=
  if n.keySets.isEmpty then []
  else match (PathTree.ofSamples s).record? c n with
    | some record => [.ofStructureAt c (s.typePredictions c) path path.length record]
    | none => [.object (s.fieldsAt c path n) c.strictObjects]

variable {s : Samples} {c : Config} {path : Path} {n : PathNode}

theorem schemaAt_of_deep (deep : c.maxDepth < path.length) : s.schemaAt c path = .any := by
  have none : c.maxDepth + 1 - path.length = 0 := by omega
  rw [schemaAt, none]
  show guarded c path.length {} _ = _
  rw [guarded, if_pos deep]

/-! ## Scalars -/

theorem ofValues_scalars (n : PathNode) : OfValues (n.scalars.map Value.tag) := by
  intro tag member
  obtain ⟨v, scalar, rfl⟩ := List.mem_map.mp member
  obtain ⟨notNull, -⟩ : v.isNull = false ∧ v.isList = false := by
    simpa using (List.mem_filter.mp scalar).2
  refine ⟨v.kind, fun isNull => ?_, rfl⟩
  rw [Value.kind_eq_null_iff.mp isNull] at notNull
  exact absurd notNull (by decide)

theorem scalarMembers_ne_nil (filled : n.scalars ≠ []) : scalarMembers c n ≠ [] := by
  simpa [scalarMembers] using sortTags_ne_nil (by simpa using filled)

theorem ofStructureAt_scalars (node : s.NodeOf path n) (there : path ∈ s.paths)
    (shallow : path.length ≤ c.maxDepth) (filled : n.scalars ≠ []) :
    ofStructureAt c (s.typePredictions c) path path.length
        (.primitive {} (Label.render (n.scalars.map Value.tag) none false false)) =
      ofAlternatives (scalarMembers c n) := by
  have tagsFilled : n.scalars.map Value.tag ≠ [] := by simpa using filled
  rw [ofStructureAt, guarded_plain shallow, refinedLabel_eq, enumAt_typePredictions c there,
    ← node.values, scalarMembers]
  cases enum : enumOf? c (n.values.filterMap Value.text?) with
  | none =>
    rw [ofLabel_render (.inl tagsFilled) (ofValues_scalars n) (by simp)]
    simp [shownTags]
  | some values =>
    exact ofLabel_refined tagsFilled (ofValues_scalars n) (enumOf?_eq_some enum).2 rfl

/-! ## Lists -/

theorem listMembers_of_filled (filled : n.lists ≠ []) :
    s.listMembers c n = [.list ((n.element?.map (s.schemaAt c)).getD .any)] := by
  rw [listMembers, if_neg (by simpa using filled)]

theorem mem_listMembers_iff {member : Schema} : member ∈ s.listMembers c n ↔
    n.lists ≠ [] ∧ member = .list ((n.element?.map (s.schemaAt c)).getD .any) := by
  by_cases none : n.lists = []
  · simp [listMembers, none]
  · simp [listMembers_of_filled none, none]

/-- Lists of which none has an item have no tags of items. -/
theorem itemTags_of_no_element (closed : s.Closed c.maxDepth) (node : s.NodeOf path n)
    (shallow : path.length ≤ c.maxDepth) (none : n.element? = none) : n.itemTags.toList = [] := by
  have empty : ∀ nesting ∈ n.nestings, nesting.tags = [] := by
    intro nesting member
    obtain ⟨v, isList, found⟩ := List.mem_filterMap.mp member
    obtain ⟨items, itemsFound, rfl⟩ := Option.map_eq_some_iff.mp found
    have noItems : items = [] := by
      by_contra filled
      rw [node.element?, if_pos] at none
      · cases none
      · exact closed.items path v items shallow (node.values ▸ (List.mem_filter.mp isList).1)
          itemsFound filled
    subst noItems
    simp [Nesting.ofItems, Nesting.walk, Nesting.tags]
  have noTags : n.nestings.flatMap Nesting.tags = [] := List.flatMap_eq_nil_iff.mpr empty
  rw [PathNode.itemTags, noTags]
  rfl

theorem ofStructureAt_lists (closed : s.Closed c.maxDepth) (node : s.NodeOf path n)
    (shallow : path.length ≤ c.maxDepth) :
    ofStructureAt c (s.typePredictions c) path path.length
        ((PathTree.ofSamples s).arrayOption c (c.maxDepth - path.length) n) =
      .list ((n.element?.map (s.schemaAt c)).getD .any) := by
  have levels : c.maxDepth + 1 - (path.length + 1) = c.maxDepth - path.length := by omega
  by_cases element : path ++ [Segment.wildcard] ∈ s.paths
  · have found : n.element? = some (path ++ [Segment.wildcard]) := by
      rw [node.element?, if_pos element]
    simp [PathTree.arrayOption, found, ofStructureAt, guarded_plain shallow, schemaAt, levels]
  · have found : n.element? = none := by rw [node.element?, if_neg element]
    have noTags := itemTags_of_no_element closed node shallow found
    simp [PathTree.arrayOption, found, ofStructureAt, guarded_plain shallow, ofItemTags, noTags]

/-! ## Maps -/

theorem ofStructureAt_record (shallow : path.length ≤ c.maxDepth) (pattern : KeyPattern)
    (stem : Option String) (label : String) :
    ofStructureAt c (s.typePredictions c) path path.length (.record {} pattern stem label) =
      .record (some pattern.name) (pattern.rule? stem) (.ofLabel label) := by
  rw [ofStructureAt, guarded_plain shallow]

theorem mapMembers_of_empty (none : n.keySets = []) : s.mapMembers c path n = [] := by
  rw [mapMembers, if_pos (by simpa using none)]

theorem mapMembers_ne_nil (filled : n.keySets ≠ []) : s.mapMembers c path n ≠ [] := by
  rw [mapMembers, if_neg (by simpa using filled)]
  split <;> simp

theorem mapMembers_of_object (filled : n.keySets ≠ [])
    (noRecord : (PathTree.ofSamples s).record? c n = none) :
    s.mapMembers c path n = [.object (s.fieldsAt c path n) c.strictObjects] := by
  rw [mapMembers, if_neg (by simpa using filled), noRecord]

theorem mapMembers_of_record (shallow : path.length ≤ c.maxDepth) (filled : n.keySets ≠ [])
    {pattern : KeyPattern} {stem : Option String} {label : String}
    (found : (PathTree.ofSamples s).record? c n = some (.record {} pattern stem label)) :
    s.mapMembers c path n =
      [.record (some pattern.name) (pattern.rule? stem) (.ofLabel label)] := by
  rw [mapMembers, if_neg (by simpa using filled), found]
  exact congrArg ([·]) (ofStructureAt_record shallow pattern stem label)

/-- What stands for the maps of a position is an object of its fields, or the record that they
make. -/
theorem mem_mapMembers_iff (shallow : path.length ≤ c.maxDepth) {member : Schema} :
    member ∈ s.mapMembers c path n ↔ n.keySets ≠ [] ∧
      (((PathTree.ofSamples s).record? c n = none ∧
        member = .object (s.fieldsAt c path n) c.strictObjects) ∨
      ∃ pattern stem label,
        (PathTree.ofSamples s).record? c n = some (.record {} pattern stem label) ∧
          member = .record (some pattern.name) (pattern.rule? stem) (.ofLabel label)) := by
  by_cases none : n.keySets = []
  · simp [mapMembers_of_empty none, none]
  · cases found : (PathTree.ofSamples s).record? c n with
    | none => simp [mapMembers_of_object none found, none]
    | some record =>
      obtain ⟨pattern, stem, label, rfl⟩ := PathTree.record?_eq_some found
      simp [mapMembers_of_record shallow none found, none]

theorem ofStructureAt_maps (closed : s.Closed c.maxDepth) (node : s.NodeOf path n)
    (shallow : path.length ≤ c.maxDepth) :
    ofStructureAt c (s.typePredictions c) path path.length
        ((PathTree.ofSamples s).objectOption c (c.maxDepth - path.length) n) =
      .object (s.fieldsAt c path n) c.strictObjects := by
  have levels : c.maxDepth + 1 - (path.length + 1) = c.maxDepth - path.length := by omega
  rw [PathTree.objectOption, ofStructureAt, guarded_plain shallow, fieldsOf_eq, List.map_map,
    fieldsAt, PathNode.names, List.map_map]
  congr 1
  refine List.map_congr_left fun child member => ?_
  obtain ⟨name, rfl, -⟩ := (node.mem_named closed child).mp member
  have optional := PathTree.structureAt_optional (PathTree.ofSamples s) c
    (c.maxDepth - path.length) (path ++ [Segment.key name])
  by_cases lacks : n.lacks name = true <;>
    simp [lacks, optional, Segment.text, schemaAt, levels, ofStructureAt_makeOptional,
      flags_makeOptional]

/-! ## Whole positions -/

theorem admitsNull_scalarOf {enum : Option (List String)} {tag : String} (notNull : tag ≠ "null") :
    (scalarOf enum tag).admitsNull = false := by
  rcases scalarOf_cases enum tag with ⟨_, -, made⟩ | made
  · rw [made]
    rfl
  · simpa [made, admitsNull] using notNull

theorem kindName_scalarOf (enum : Option (List String)) (tag : String) :
    (scalarOf enum tag).kindName = "enum" ∨ (scalarOf enum tag).kindName = "scalar" := by
  rcases scalarOf_cases enum tag with ⟨_, -, made⟩ | made <;> rw [made]
  · exact .inl rfl
  · exact .inr rfl

theorem mem_scalarMembers {member : Schema} (among : member ∈ scalarMembers c n) :
    member.admitsNull = false ∧ (member.kindName = "enum" ∨ member.kindName = "scalar") := by
  obtain ⟨tag, tagMember, rfl⟩ := List.mem_map.mp among
  refine ⟨admitsNull_scalarOf ?_, kindName_scalarOf _ tag⟩
  exact (proper_of_ofValues (ofValues_scalars n) tag (mem_sortTags.mp tagMember)).1

theorem mem_listMembers {member : Schema} (among : member ∈ s.listMembers c n) :
    ∃ element, member = .list element := by
  exact ⟨_, (mem_listMembers_iff.mp among).2⟩

theorem mem_mapMembers (shallow : path.length ≤ c.maxDepth) {member : Schema}
    (among : member ∈ s.mapMembers c path n) :
    (∃ pattern rule value, member = .record pattern rule value) ∨
      ∃ shape strict, member = .object shape strict := by
  obtain ⟨-, ⟨-, rfl⟩ | ⟨_, _, _, -, rfl⟩⟩ := (mem_mapMembers_iff shallow).mp among
  · exact .inr ⟨_, _, rfl⟩
  · exact .inl ⟨_, _, _, rfl⟩

/-- The alternatives of a position are of different kinds, or of different tags. -/
theorem members_pairwise (s : Samples) (n : PathNode) (shallow : path.length ≤ c.maxDepth) :
    (scalarMembers c n ++ s.listMembers c n ++ s.mapMembers c path n).Pairwise Differ := by
  have lists : (s.listMembers c n).Pairwise Differ := by
    unfold listMembers
    split <;> simp
  have maps : (s.mapMembers c path n).Pairwise Differ := by
    unfold mapMembers
    split
    · exact .nil
    · split <;> simp
  have scalars := scalarOf_pairwise (enumOf? c (n.values.filterMap Value.text?))
    ((sortTags_perm (n.scalars.map Value.tag)).nodup_iff.mpr (ascending_nodup _))
  refine List.pairwise_append.mpr ⟨List.pairwise_append.mpr ⟨scalars, lists, ?_⟩, maps, ?_⟩
  · intro scalar scalarMember list listMember
    obtain ⟨element, rfl⟩ := mem_listMembers listMember
    refine differ_of_kindName_ne ?_
    rcases (mem_scalarMembers scalarMember).2 with kind | kind <;> rw [kind] <;> simp [kindName]
  · intro other otherMember map mapMember
    refine differ_of_kindName_ne ?_
    rcases List.mem_append.mp otherMember with scalarMember | listMember
    · rcases mem_mapMembers shallow mapMember with ⟨_, _, _, rfl⟩ | ⟨_, _, rfl⟩ <;>
        rcases (mem_scalarMembers scalarMember).2 with kind | kind <;> rw [kind] <;>
          simp [kindName]
    · obtain ⟨element, rfl⟩ := mem_listMembers listMember
      rcases mem_mapMembers shallow mapMember with ⟨_, _, _, rfl⟩ | ⟨_, _, rfl⟩ <;>
        simp [kindName]

theorem apart_members (s : Samples) (n : PathNode) (shallow : path.length ≤ c.maxDepth) :
    Apart (scalarMembers c n ++ s.listMembers c n ++ s.mapMembers c path n) where
  pairwise := (members_pairwise s n shallow).imp And.right
  closed := by
    intro member among
    rw [List.mem_append, List.mem_append] at among
    rcases among with (scalar | list) | map
    · exact (mem_scalarMembers scalar).1
    · obtain ⟨element, rfl⟩ := mem_listMembers list
      rfl
    · rcases mem_mapMembers shallow map with ⟨_, _, _, rfl⟩ | ⟨_, _, rfl⟩ <;> rfl
  simple := by
    intro member among others isUnion
    subst isUnion
    rw [List.mem_append, List.mem_append] at among
    rcases among with (scalar | list) | map
    · rcases (mem_scalarMembers scalar).2 with kind | kind <;> simp [kindName] at kind
    · obtain ⟨element, same⟩ := mem_listMembers list
      cases same
    · rcases mem_mapMembers shallow map with ⟨_, _, _, same⟩ | ⟨_, _, same⟩ <;> cases same

theorem apart_of_append {members others : List Schema} (apart : Apart (members ++ others)) :
    Apart members where
  pairwise := (List.pairwise_append.mp apart.pairwise).1
  closed member among := apart.closed member (List.mem_append_left _ among)
  simple member among := apart.simple member (List.mem_append_left _ among)

theorem apart_singleton {member : Schema} (closed : member.admitsNull = false)
    (simple : ∀ others, member ≠ .union others) : Apart [member] where
  pairwise := by simp
  closed := by simpa using closed
  simple := by simpa using simple

/-- Options have these alternatives, and each of them is made of its own. -/
def Composed (schema : Structure → Schema) (options : List Structure) (members : List Schema) :
    Prop :=
  (options.map schema).flatMap alternatives = members ∧
    ∀ option ∈ options, (schema option).alternatives ≠ [] ∧
      ofAlternatives (schema option).alternatives = schema option

theorem Composed.append {schema : Structure → Schema} {options others : List Structure}
    {members more : List Schema} (first : Composed schema options members)
    (second : Composed schema others more) :
    Composed schema (options ++ others) (members ++ more) := by
  refine ⟨by rw [List.map_append, List.flatMap_append, first.1, second.1], ?_⟩
  exact List.forall_mem_append.mpr ⟨first.2, second.2⟩

theorem composed_nil (schema : Structure → Schema) : Composed schema [] [] :=
  ⟨rfl, by simp⟩

theorem composed_singleton {schema : Structure → Schema} {option : Structure}
    {members : List Schema} (filled : members ≠ []) (apart : Apart members)
    (made : schema option = ofAlternatives members) :
    Composed schema [option] members := by
  have own : (schema option).alternatives = members := by
    rw [made, alternatives_ofAlternatives apart.simple filled]
  refine ⟨by simpa using own, fun other member => ?_⟩
  obtain rfl := List.mem_singleton.mp member
  rw [own]
  exact ⟨filled, made.symm⟩

/-- The options of a position have its alternatives, each option some of them. -/
theorem composed_options (closed : s.Closed c.maxDepth) (node : s.NodeOf path n)
    (there : path ∈ s.paths) (shallow : path.length ≤ c.maxDepth) :
    Composed (ofStructureAt c (s.typePredictions c) path path.length)
      ((PathTree.ofSamples s).options c (c.maxDepth - path.length) n)
      (scalarMembers c n ++ s.listMembers c n ++ s.mapMembers c path n) := by
  have apart := apart_members s n shallow
  have scalarApart := apart_of_append (apart_of_append apart)
  refine (Composed.append ?_ ?_).append ?_
  · unfold PathNode.scalarOption
    by_cases none : n.scalars = []
    · simpa [none, scalarMembers, sortTags, ascending] using composed_nil _
    · rw [if_neg (by simpa using none)]
      exact composed_singleton (scalarMembers_ne_nil none) scalarApart
        (ofStructureAt_scalars node there shallow none)
  · unfold listMembers
    split
    · exact composed_nil _
    · exact composed_singleton (by simp) (apart_singleton rfl (by simp))
        (ofStructureAt_lists closed node shallow)
  · unfold mapMembers
    split
    · exact composed_nil _
    · cases found : (PathTree.ofSamples s).record? c n with
      | none =>
        exact composed_singleton (by simp) (apart_singleton rfl (by simp))
          (ofStructureAt_maps closed node shallow)
      | some record =>
        obtain ⟨pattern, stem, label, rfl⟩ := PathTree.record?_eq_some found
        have made : ofStructureAt c (s.typePredictions c) path path.length
            (.record {} pattern stem label) =
              .record (some pattern.name) (pattern.rule? stem) (ofLabel label) :=
          ofStructureAt_record shallow pattern stem label
        simp only [Option.getD_some, made]
        exact composed_singleton (by simp) (apart_singleton rfl (by simp)) made

/-- Where there are no scalars, no enumeration is predicted. -/
theorem enumAt_of_no_scalars (node : s.NodeOf path n) (there : path ∈ s.paths)
    (none : n.scalars = []) : enumAt (s.typePredictions c) path = .none := by
  have noTexts : n.values.filterMap Value.text? = [] := by
    refine List.filterMap_eq_nil_iff.mpr fun v member => ?_
    cases v with
    | text text =>
      have scalar : Value.text text ∈ n.scalars := List.mem_filter.mpr ⟨member, rfl⟩
      rw [none] at scalar
      cases scalar
    | _ => rfl
  rw [enumAt_typePredictions c there, ← node.values, noTexts, enumOf?_nil]

/-- A position where nothing but null was seen. -/
theorem ofStructureAt_null (node : s.NodeOf path n) (there : path ∈ s.paths)
    (shallow : path.length ≤ c.maxDepth) (none : n.scalars = []) :
    ofStructureAt c (s.typePredictions c) path path.length (.ofOptions n.nullable []) = .null := by
  rw [Structure.ofOptions, ofStructureAt, guarded_of_shallow shallow, refinedLabel_eq,
    enumAt_of_no_scalars node there none]
  rfl

/-- The schema of a position is put together from what was seen there. -/
theorem schemaAt_eq (closed : s.Closed c.maxDepth) (node : s.NodeOf path n)
    (there : path ∈ s.paths) (shallow : path.length ≤ c.maxDepth) :
    s.schemaAt c path = besideNull n.nullable
      (scalarMembers c n ++ s.listMembers c n ++ s.mapMembers c path n) := by
  have levels : c.maxDepth + 1 - path.length = c.maxDepth - path.length + 1 := by omega
  have apart := apart_members s n shallow
  obtain ⟨members, whole⟩ := composed_options closed node there shallow
  rw [schemaAt, levels, PathTree.structureAt_succ, node.found]
  dsimp only
  by_cases filled : (PathTree.ofSamples s).options c (c.maxDepth - path.length) n = []
  · have noScalars : n.scalars = [] := by
      by_contra some
      simp [PathTree.options, PathNode.scalarOption, some] at filled
    rw [filled, ofStructureAt_null node there shallow noScalars, ← members, filled]
    rfl
  · rw [← members] at apart ⊢
    exact ofStructureAt_ofOptions shallow filled (fun _ => PathTree.flags_of_mem_options) whole
      apart _

end Samples
end SchemaInference
