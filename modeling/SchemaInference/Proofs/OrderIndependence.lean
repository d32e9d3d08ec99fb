import SchemaInference.Proofs.Prediction
import SchemaInference.Proofs.Rearrangement
import SchemaInference.Proofs.SampleMatching

/-! Order and multiplicity do not matter. Samples that match give every position the same schema, up
to the order in which objects list their fields; so a prediction depends neither on the order of the
documents and of what they hold, nor on how often a document is repeated. -/
namespace SchemaInference

theorem sortTags_congr {tags others : List String} (same : ∀ tag, tag ∈ tags ↔ tag ∈ others) :
    sortTags tags = sortTags others := by
  rw [sortTags, sortTags, ascending_congr same]

namespace KeyPattern

variable {names names' : List String}

private theorem ne_nil_iff (perm : names.Perm names') : names ≠ [] ↔ names' ≠ [] := by
  rw [← List.length_pos_iff, ← List.length_pos_iff, perm.length_eq]

theorem sharedStem_perm (perm : names.Perm names') : sharedStem names = sharedStem names' := by
  refine Option.ext fun stem => ?_
  rw [sharedStem_eq_some_iff, sharedStem_eq_some_iff, ne_nil_iff perm]
  simp only [perm.mem_iff]

/-- The pattern of names does not depend on their order. -/
theorem ofKeys_perm (perm : names.Perm names') :
    ofKeys (names.map .key) = ofKeys (names'.map .key) := by
  refine Option.ext fun p => ?_
  rw [ofKeys_eq_some_iff, ofKeys_eq_some_iff, ne_nil_iff perm, sharedStem_perm perm]
  simp only [perm.mem_iff]

end KeyPattern

namespace Samples
variable {s s' : Samples} {c : Config} {path : Path} {n n' : PathNode}

/-! ## What is seen at a position -/

theorem Matches.mem_leavesAt (matched : s.Matches s') {v : Value} :
    v ∈ s.leavesAt path ↔ v ∈ s'.leavesAt path := by
  obtain ⟨copies, perm, copied⟩ := matched.leaves path
  rw [perm.mem_iff, List.mem_append]
  exact ⟨.inl, fun either => either.elim id fun copy => (copied v copy).1⟩

theorem mem_leavesAt_iff {v : Value} (bare : v.isBare = true) :
    v ∈ s.leavesAt path ↔ v ∈ s.valuesAt path := by
  rw [leavesAt, List.mem_filter, and_iff_left bare]

theorem Matches.nullable_eq (matched : s.Matches s') (node : s.NodeOf path n)
    (node' : s'.NodeOf path n') : n.nullable = n'.nullable := by
  have null (n : PathNode) : n.nullable = true ↔ .null ∈ n.values := by
    rw [PathNode.nullable, List.any_eq_true]
    constructor
    · rintro ⟨v, member, isNull⟩
      cases v <;> first | exact member | cases isNull
    · exact fun member => ⟨_, member, rfl⟩
  rw [Bool.eq_iff_iff, null, null, node.values, node'.values, ← mem_leavesAt_iff rfl,
    ← mem_leavesAt_iff rfl, matched.mem_leavesAt]

/-- The tags of scalars are those of leaves that are not null, and of maps that are not entered. -/
theorem NodeOf.mem_tags (node : s.NodeOf path n) {tag : String} :
    tag ∈ n.scalars.map Value.tag ↔ (∃ v ∈ s.leavesAt path, v ≠ .null ∧ v.tag = tag) ∨
      (∃ v ∈ s.valuesAt path, v.isMap = true) ∧ tag = "object" := by
  rw [PathNode.scalars, node.values]
  simp only [leavesAt, List.mem_map, List.mem_filter]
  constructor
  · rintro ⟨v, ⟨member, scalar⟩, rfl⟩
    cases v with
    | map form entries => exact .inr ⟨⟨_, member, rfl⟩, rfl⟩
    | null => cases scalar
    | list => cases scalar
    | _ => exact .inl ⟨_, ⟨member, rfl⟩, by simp, rfl⟩
  · rintro (⟨v, ⟨member, bare⟩, notNull, rfl⟩ | ⟨⟨v, member, isMap⟩, rfl⟩)
    · refine ⟨v, ⟨member, ?_⟩, rfl⟩
      cases v <;> first | rfl | contradiction
    · cases v <;> first | exact ⟨_, ⟨member, rfl⟩, rfl⟩ | cases isMap

theorem Matches.scalarMembers_eq (matched : s.Matches s') (node : s.NodeOf path n)
    (node' : s'.NodeOf path n') : scalarMembers c n = scalarMembers c n' := by
  have tags (tag : String) : tag ∈ n.scalars.map Value.tag ↔ tag ∈ n'.scalars.map Value.tag := by
    simp only [node.mem_tags, node'.mem_tags, matched.mem_leavesAt, matched.maps]
  have texts (text : String) :
      text ∈ n.values.filterMap Value.text? ↔ text ∈ n'.values.filterMap Value.text? := by
    have isText (n : PathNode) : text ∈ n.values.filterMap Value.text? ↔ .text text ∈ n.values := by
      rw [List.mem_filterMap]
      constructor
      · rintro ⟨v, member, found⟩
        cases v <;> cases found
        exact member
      · exact fun member => ⟨_, member, rfl⟩
    rw [isText, isText, node.values, node'.values, ← mem_leavesAt_iff rfl, ← mem_leavesAt_iff rfl,
      matched.mem_leavesAt]
  rw [scalarMembers, scalarMembers, sortTags_congr tags, enumOf?_congr c texts]

theorem Matches.lists_iff (matched : s.Matches s') (node : s.NodeOf path n)
    (node' : s'.NodeOf path n') : n.lists = [] ↔ n'.lists = [] := by
  have none {s : Samples} {n : PathNode} (node : s.NodeOf path n) :
      n.lists = [] ↔ ¬ ∃ v ∈ s.valuesAt path, v.isList = true := by
    rw [PathNode.lists, node.values, List.filter_eq_nil_iff]
    simp
  rw [none node, none node', matched.lists]

theorem Matches.keySets_iff (matched : s.Matches s') :
    s.keySetsAt path = [] ↔ s'.keySetsAt path = [] := by
  have none (s : Samples) : s.keySetsAt path = [] ↔
      ¬ ∃ row, ∃ keys ∈ s.keySetsAt path, ascending keys = row := by
    rw [List.eq_nil_iff_forall_not_mem]
    exact ⟨fun none ⟨_, keys, member, _⟩ => none keys member,
      fun none keys member => none ⟨_, keys, member, rfl⟩⟩
  rw [none, none]
  simp only [matched.keys]

theorem Matches.names_perm {limit : Nat} (matched : s.Matches s') (closed : s.Closed limit)
    (closed' : s'.Closed limit) (node : s.NodeOf path n) (node' : s'.NodeOf path n') :
    n.names.Perm n'.names := by
  rw [List.perm_ext_iff_of_nodup (node.names_nodup closed) (node'.names_nodup closed')]
  exact fun name => by rw [node.mem_names closed, node'.mem_names closed', matched.paths]

theorem Matches.lacks_eq (matched : s.Matches s') (node : s.NodeOf path n)
    (node' : s'.NodeOf path n') (name : String) : n.lacks name = n'.lacks name := by
  have lacking {s : Samples} {n : PathNode} (node : s.NodeOf path n) : n.lacks name = true ↔
      ∃ row, (∃ keys ∈ s.keySetsAt path, ascending keys = row) ∧ name ∉ row := by
    rw [PathNode.lacks, node.keySets, List.any_eq_true]
    constructor
    · rintro ⟨keys, member, lacking⟩
      exact ⟨_, ⟨keys, member, rfl⟩, by simpa using lacking⟩
    · rintro ⟨_, ⟨keys, member, rfl⟩, lacking⟩
      exact ⟨keys, member, by simpa using lacking⟩
  rw [Bool.eq_iff_iff, lacking node, lacking node']
  simp only [matched.keys]

/-! ## Records -/

/-- The leaves that were seen under names. -/
def leavesUnder (s : Samples) (path : Path) (names : List String) : List Value :=
  names.flatMap fun name => s.leavesAt (path ++ [.key name])

theorem valuesUnder_eq {names : List String}
    (leaves : ∀ name ∈ names, s.IsLeaf (path ++ [.key name])) :
    s.valuesUnder path names = s.leavesUnder path names := by
  refine List.flatMap_congr fun name member => (List.filter_eq_self.mpr fun v seen => ?_).symm
  obtain ⟨notList, notMap⟩ := (leaves name member).values v seen
  simp [Value.isBare, notList, notMap]

theorem Matches.isLeaf_iff (matched : s.Matches s') : s.IsLeaf path ↔ s'.IsLeaf path := by
  have split (s : Samples) : s.IsLeaf path ↔ (∀ step, path ++ [step] ∉ s.paths) ∧
      s.keySetsAt path = [] ∧ (¬ ∃ v ∈ s.valuesAt path, v.isList = true) ∧
        ¬ ∃ v ∈ s.valuesAt path, v.isMap = true := by
    constructor
    · intro leaf
      refine ⟨leaf.childless, leaf.keySets, ?_, ?_⟩
      · rintro ⟨v, seen, isList⟩
        exact absurd isList (by simp [(leaf.values v seen).1])
      · rintro ⟨v, seen, isMap⟩
        exact absurd isMap (by simp [(leaf.values v seen).2])
    · rintro ⟨childless, keySets, noList, noMap⟩
      refine ⟨childless, keySets, fun v seen => ⟨?_, ?_⟩⟩
      · exact Bool.eq_false_iff.mpr fun isList => noList ⟨v, seen, isList⟩
      · exact Bool.eq_false_iff.mpr fun isMap => noMap ⟨v, seen, isMap⟩
  rw [split, split, matched.keySets_iff, matched.lists, matched.maps]
  simp only [matched.paths]

/-- The leaves under names match those of other samples, apart from copies. -/
theorem Matches.leavesUnder_perm (matched : s.Matches s') (path : Path) {names names' : List String}
    (perm : names.Perm names') :
    ∃ copies, (s'.leavesUnder path names').Perm (s.leavesUnder path names ++ copies) ∧
      ∀ v ∈ copies, v ∈ s.leavesUnder path names ∧ v.Steady := by
  have same : (s'.leavesUnder path names').Perm (s'.leavesUnder path names) :=
    perm.symm.flatMap_right _
  suffices found : ∃ copies, (s'.leavesUnder path names).Perm (s.leavesUnder path names ++ copies) ∧
      ∀ v ∈ copies, v ∈ s.leavesUnder path names ∧ v.Steady by
    obtain ⟨copies, later, copied⟩ := found
    exact ⟨copies, same.trans later, copied⟩
  clear perm same
  induction names with
  | nil => exact ⟨[], .refl _, by simp⟩
  | cons name rest ih =>
    obtain ⟨here, herePerm, hereCopied⟩ := matched.leaves (path ++ [Segment.key name])
    obtain ⟨later, laterPerm, laterCopied⟩ := ih
    refine ⟨here ++ later, ?_, fun v member => ?_⟩
    · simp only [leavesUnder, List.flatMap_cons] at laterPerm ⊢
      refine (herePerm.append laterPerm).trans ?_
      rw [List.append_assoc, List.append_assoc, List.perm_append_left_iff, ← List.append_assoc,
        ← List.append_assoc, List.perm_append_right_iff]
      exact List.perm_append_comm
    · simp only [leavesUnder, List.flatMap_cons, List.mem_append] at laterCopied ⊢
      rcases List.mem_append.mp member with copy | copy
      · exact ⟨.inl (hereCopied v copy).1, (hereCopied v copy).2⟩
      · exact ⟨.inr (laterCopied v copy).1, (laterCopied v copy).2⟩

theorem Matches.recordPattern?_eq {limit : Nat} (matched : s.Matches s') (closed : s.Closed limit)
    (closed' : s'.Closed limit) (node : s.NodeOf path n) (node' : s'.NodeOf path n') :
    PathTree.recordPattern? c n = PathTree.recordPattern? c n' := by
  have perm := matched.names_perm closed closed' node node'
  refine Option.ext fun pattern => ?_
  rw [node.recordPattern?_eq_some_iff closed, node'.recordPattern?_eq_some_iff closed',
    perm.length_eq, KeyPattern.ofKeys_perm perm]

theorem labelUnder_congr {names names' : List String}
    (same : ∀ v, v ∈ s.valuesUnder path names ↔ v ∈ s'.valuesUnder path names') :
    s.tagsUnder path names = s'.tagsUnder path names' ∧
      s.labelUnder path names = s'.labelUnder path names' := by
  have tags : s.tagsUnder path names = s'.tagsUnder path names' := by
    simp only [tagsUnder, TagSet.ofList, TagSet.mk.injEq]
    refine ascending_congr fun tag => ?_
    simp only [List.mem_map, List.mem_filter, same]
  have nullable : (s.valuesUnder path names).any Value.isNull =
      (s'.valuesUnder path names').any Value.isNull := by
    rw [Bool.eq_iff_iff, List.any_eq_true, List.any_eq_true]
    simp only [same]
  exact ⟨tags, by rw [labelUnder, labelUnder, tags, nullable]⟩

/-- Where the decision on a record is not refused, matching samples make the same record. -/
theorem Matches.record?_eq {limit : Nat} (matched : s.Matches s') (closed : s.Closed limit)
    (closed' : s'.Closed limit) (node : s.NodeOf path n) (node' : s'.NodeOf path n')
    {height : Nat}
    (noRefusal : Room.refusal? none ((PathTree.ofSamples s).decisionSteps c height n) = none) :
    (PathTree.ofSamples s).record? c n = (PathTree.ofSamples s').record? c n' := by
  have perm := matched.names_perm closed closed' node node'
  have sameLeaves : (∀ name ∈ n'.names, s'.IsLeaf (path ++ [Segment.key name])) ↔
      ∀ name ∈ n.names, s.IsLeaf (path ++ [Segment.key name]) := by
    simp only [← perm.mem_iff, ← matched.isLeaf_iff]
  refine Option.ext fun record => ?_
  rw [node.record?_eq_some_iff closed, node'.record?_eq_some_iff closed',
    ← matched.recordPattern?_eq closed closed' node node', sameLeaves,
    KeyPattern.sharedStem_perm perm]
  refine exists_congr fun pattern => and_congr_right fun found => and_congr_right fun leaves => ?_
  obtain ⟨copies, copiesPerm, copied⟩ := matched.leavesUnder_perm path perm
  rw [← valuesUnder_eq leaves, ← valuesUnder_eq (sameLeaves.mpr leaves)] at copiesPerm
  rw [← valuesUnder_eq leaves] at copied
  have same (v : Value) : v ∈ s.valuesUnder path n.names ↔ v ∈ s'.valuesUnder path n'.names := by
    rw [copiesPerm.mem_iff, List.mem_append]
    exact ⟨.inl, fun either => either.elim id fun copy => (copied v copy).1⟩
  have two : Value.holdsTwo (s.valuesUnder path n.names) =
      Value.holdsTwo (s'.valuesUnder path n'.names) := by
    refine Value.holdsTwo_congr copiesPerm fun v copy => ⟨(copied v copy).1, ?_⟩
    have kept := node.isRefused_eq_false closed found leaves noRefusal v (copied v copy).1
    exact (copied v copy).2.resolve_right (by simp [kept])
  obtain ⟨tags, label⟩ := labelUnder_congr same
  rw [tags, label, two]

end Samples

/-! ## Schemas -/

theorem Schema.besideNull_rearranged (nullable : Bool) {members members' : List Schema}
    (each : List.Forall₂ Rearranged members members') :
    Rearranged (besideNull nullable members) (besideNull nullable members') := by
  have whole := ofAlternatives_rearranged each
  cases each with
  | nil => exact .refl _
  | cons head tail =>
    cases nullable with
    | false => exact whole
    | true => exact .nullable whole

namespace Samples
variable {s s' : Samples} {c : Config} {path : Path} {n n' : PathNode}

/-- What looking at a position without a refusal says of the positions below it. -/
theorem not_refused_below {levels height : Nat} (node : s.NodeOf path n)
    (noRefusal : Room.refusal? none
      ((PathTree.ofSamples s).structureSteps c height (levels + 1) path) = none) :
    (n.lists ≠ [] → ∀ element, n.element? = some element → Room.refusal? none
      ((PathTree.ofSamples s).structureSteps c (height + 2) levels element) = none) ∧
    (n.keySets ≠ [] →
      Room.refusal? none ((PathTree.ofSamples s).decisionSteps c height n) = none ∧
      ((PathTree.ofSamples s).record? c n = none → ∀ child ∈ n.named, Room.refusal? none
        ((PathTree.ofSamples s).structureSteps c (height + 2) levels child) = none)) := by
  rw [PathTree.structureSteps, node.found] at noRefusal
  obtain ⟨lists, maps⟩ := Room.refusal?_append_eq_none_iff.mp noRefusal
  refine ⟨fun filled element found => ?_, fun filled => ?_⟩
  · rw [if_neg (by simpa using filled), found] at lists
    exact lists
  · rw [if_neg (by simpa using filled)] at maps
    obtain ⟨decision, below⟩ := Room.refusal?_append_eq_none_iff.mp maps
    refine ⟨decision, fun noRecord => ?_⟩
    rw [noRecord, Option.isNone_none, if_pos rfl] at below
    exact Room.refusal?_flatMap_eq_none_iff.mp below

theorem Matches.listMembers_rearranged (matched : s.Matches s') (node : s.NodeOf path n)
    (node' : s'.NodeOf path n')
    (below : n.lists ≠ [] → path ++ [.wildcard] ∈ s.paths →
      (s.schemaAt c (path ++ [.wildcard])).Rearranged (s'.schemaAt c (path ++ [.wildcard]))) :
    List.Forall₂ Schema.Rearranged (s.listMembers c n) (s'.listMembers c n') := by
  by_cases none : n.lists = []
  · have none' := (matched.lists_iff node node').mp none
    simp [listMembers, none, none']
  · have some' := mt (matched.lists_iff node node').mpr none
    rw [listMembers_of_filled none, listMembers_of_filled some', node.element?, node'.element?]
    refine .cons (.list ?_) .nil
    by_cases element : path ++ [Segment.wildcard] ∈ s.paths
    · rw [if_pos element, if_pos ((matched.paths _).mp element), Option.map_some, Option.map_some,
        Option.getD_some, Option.getD_some]
      exact below none element
    · rw [if_neg element, if_neg (mt (matched.paths _).mpr element), Option.map_none,
        Option.map_none]
      exact .refl _

theorem Matches.mapMembers_rearranged (matched : s.Matches s') (closed : s.Closed c.maxDepth)
    (closed' : s'.Closed c.maxDepth) (node : s.NodeOf path n) (node' : s'.NodeOf path n')
    (shallow : path.length ≤ c.maxDepth)
    {height : Nat} (noRefusal : n.keySets ≠ [] →
      Room.refusal? none ((PathTree.ofSamples s).decisionSteps c height n) = none)
    (below : n.keySets ≠ [] → (PathTree.ofSamples s).record? c n = none → ∀ name ∈ n.names,
      (s.schemaAt c (path ++ [.key name])).Rearranged (s'.schemaAt c (path ++ [.key name]))) :
    List.Forall₂ Schema.Rearranged (s.mapMembers c path n) (s'.mapMembers c path n') := by
  have sameKeySets : n.keySets = [] ↔ n'.keySets = [] := by
    rw [node.keySets, node'.keySets, matched.keySets_iff]
  by_cases none : n.keySets = []
  · rw [mapMembers_of_empty none, mapMembers_of_empty (sameKeySets.mp none)]
    exact .nil
  · have record := matched.record?_eq closed closed' node node' (noRefusal none)
    have filled' := mt sameKeySets.mpr none
    cases found : (PathTree.ofSamples s).record? c n with
    | none =>
      rw [mapMembers_of_object none found, mapMembers_of_object filled' (record.symm.trans found)]
      have lacks : n'.lacks = n.lacks := funext fun name => (matched.lacks_eq node node' name).symm
      rw [fieldsAt, fieldsAt, lacks]
      exact .cons (Schema.object_rearranged (matched.names_perm closed closed' node node') _
        (below none found)) .nil
    | some record =>
      obtain ⟨pattern, stem, label, rfl⟩ := PathTree.record?_eq_some found
      rw [mapMembers_of_record shallow none found,
        mapMembers_of_record shallow filled' (record.symm.trans found)]
      exact .cons (.refl _) .nil

/-- Matching samples give every position the same schema, up to the order of fields. -/
theorem Matches.schemaAt_rearranged (matched : s.Matches s') (closed : s.Closed c.maxDepth)
    (closed' : s'.Closed c.maxDepth) {levels height : Nat} (there : path ∈ s.paths)
    (depth : path.length + levels = c.maxDepth + 1)
    (noRefusal : Room.refusal? none
      ((PathTree.ofSamples s).structureSteps c height levels path) = none) :
    (s.schemaAt c path).Rearranged (s'.schemaAt c path) := by
  induction levels generalizing path height with
  | zero =>
    rw [schemaAt_of_deep (by omega), schemaAt_of_deep (by omega)]
    exact .refl _
  | succ levels ih =>
    have shallow : path.length ≤ c.maxDepth := by omega
    have there' := (matched.paths path).mp there
    obtain ⟨n, node⟩ := closed.exists_node there
    obtain ⟨n', node'⟩ := closed'.exists_node there'
    obtain ⟨listBelow, mapBelow⟩ := not_refused_below node noRefusal
    rw [schemaAt_eq closed node there shallow, schemaAt_eq closed' node' there' shallow,
      matched.nullable_eq node node', matched.scalarMembers_eq node node']
    have scalars : List.Forall₂ Schema.Rearranged (scalarMembers c n') (scalarMembers c n') :=
      List.forall₂_same.mpr fun member _ => .refl member
    have lists : List.Forall₂ Schema.Rearranged (s.listMembers c n) (s'.listMembers c n') :=
      matched.listMembers_rearranged node node' fun filled below => by
        have found := listBelow filled (path ++ [Segment.wildcard])
          (by rw [node.element?, if_pos below])
        exact ih below (by simp; omega) found
    have maps : List.Forall₂ Schema.Rearranged (s.mapMembers c path n) (s'.mapMembers c path n') :=
      matched.mapMembers_rearranged closed closed' node node' shallow
        (fun filled => (mapBelow filled).1)
        fun filled noRecord name member => by
          have below := (node.mem_names closed).mp member
          have child := (node.mem_named closed _).mpr ⟨name, rfl, below⟩
          exact ih below (by simp; omega) ((mapBelow filled).2 noRecord _ child)
    exact Schema.besideNull_rearranged _ (List.rel_append (List.rel_append scalars lists) maps)

end Samples
/-! ## Predictions -/

/-- What a decision on a record tells apart was seen under a key. -/
theorem Samples.exists_of_mem_structureSteps {s : Samples} {c : Config} {limit : Nat}
    (closed : s.Closed limit) {height levels : Nat} {path : Path} {step : Step}
    (member : step ∈ (PathTree.ofSamples s).structureSteps c height levels path) :
    ∃ path name, s.valuesAt (path ++ [.key name]) ≠ [] := by
  induction levels generalizing path height with
  | zero => cases member
  | succ levels ih =>
    rw [PathTree.structureSteps] at member
    split at member
    · cases member
    · rename_i n found
      simp only [List.mem_append, List.mem_ite_nil_left] at member
      obtain ⟨-, below⟩ | ⟨-, decision | below⟩ := member
      · cases element : n.element? with
        | none =>
          rw [element] at below
          cases below
        | some element =>
          rw [element] at below
          exact ih below
      · rw [PathTree.decisionSteps, List.mem_ite_nil_right] at decision
        obtain ⟨child, among, told⟩ := List.mem_flatMap.mp decision.2
        obtain ⟨v, seen, -⟩ := List.mem_flatMap.mp told
        obtain ⟨n', node⟩ :=
          closed.exists_node (closed.has_iff.mp (PathTree.has_iff.mpr ⟨n, found⟩))
        cases found.symm.trans node.found
        have under : v ∈ s.valuesUnder path n.names := by
          rw [← node.childNodes_values closed]
          exact List.mem_flatMap.mpr ⟨child, (List.takeWhile_sublist _).subset among, seen⟩
        obtain ⟨name, -, seen⟩ := List.mem_flatMap.mp under
        exact ⟨_, name, List.ne_nil_of_mem seen⟩
      · rw [List.mem_ite_nil_right] at below
        obtain ⟨child, -, below⟩ := List.mem_flatMap.mp below.2
        exact ih below

/-- Documents that have nothing to look into have nothing to tell apart. -/
theorem structureSteps_of_plain {c : Config} {documents : List Value} {schema : Schema}
    (filled : documents ≠ []) (found : plainSchema? c documents = some schema) (levels : Nat) :
    (PathTree.ofSamples (samplesOf c documents)).structureSteps c 0 levels [] = [] := by
  refine List.eq_nil_iff_forall_not_mem.mpr fun step member => ?_
  obtain ⟨path, name, seen⟩ :=
    Samples.exists_of_mem_structureSteps (Samples.closed_ofDocuments filled) member
  obtain ⟨v, seen⟩ := List.exists_mem_of_ne_nil _ seen
  obtain ⟨document, member, concrete, holds, same, -⟩ := Samples.mem_valuesAt_ofDocuments.mp seen
  have bare : concrete = [] := by
    obtain ⟨-, null⟩ | ⟨-, empty⟩ | ⟨-, empty⟩ := plainSchema?_eq_some found
    · obtain rfl := null document member
      cases holds
      rfl
    · obtain ⟨form, rfl⟩ := empty document member
      exact Samples.eq_nil_of_holds_emptyList holds
    · obtain ⟨form, rfl⟩ := empty document member
      exact Samples.eq_nil_of_holds_emptyMap holds
  rw [bare] at same
  simp [Path.flat] at same

/-- A prediction that returns has met no refusal. -/
theorem not_refused_of_predict {c : Config} {documents : List Value} {stack : Stack}
    {schema : Schema} (returned : predict c documents stack = .ok schema) :
    stack.telling.refusal? (Samples.decidingSteps c documents) = none := by
  obtain ⟨filled, -⟩ := predict_eq returned
  unfold predict at returned
  rw [if_neg (by simpa using filled)] at returned
  split at returned
  · rename_i plain found
    rw [Samples.decidingSteps, structureSteps_of_plain filled found]
    rfl
  · cases collecting : Samples.collected c documents stack with
    | error fault =>
      rw [collecting] at returned
      cases returned
    | ok s =>
      rw [collecting] at returned
      obtain rfl := Samples.eq_samplesOf_of_collected collecting
      change Samples.schema _ c stack = .ok schema at returned
      unfold Samples.schema Samples.analysis Samples.structureAt at returned
      dsimp only at returned
      split at returned
      · cases returned
      · rename_i noRefusal
        rwa [c.levels_zero] at noRefusal

/-- Order and multiplicity do not matter: documents that differ from others in order, at any depth,
and in copies of documents whose leaves are no other value than themselves, give schemas that are
equal up to the order of fields, and accept the same values. -/
theorem predict_rearranged {c : Config} {documents copies documents' : List Value}
    {schema schema' : Schema} (returned : predict c documents = .ok schema)
    (returned' : predict c documents' = .ok schema')
    (copied : ∀ document ∈ copies, document ∈ documents ∧ document.LeavesSteady)
    (reordered : Reorders (documents ++ copies) documents') :
    schema.Rearranged schema' ∧ ∀ v, schema.check v = .ok [] ↔ schema'.check v = .ok [] := by
  have noRefusal := Room.refusal?_ample (not_refused_of_predict returned)
  obtain ⟨filled, rfl⟩ := predict_eq returned
  obtain ⟨filled', rfl⟩ := predict_eq returned'
  have closed : (samplesOf c documents).Closed c.maxDepth := Samples.closed_ofDocuments filled
  have closed' : (samplesOf c documents').Closed c.maxDepth := Samples.closed_ofDocuments filled'
  have matched : (samplesOf c documents).Matches (samplesOf c documents') :=
    Samples.matches_of_reorders copied reordered
  have rearranged := matched.schemaAt_rearranged closed closed' closed.root (by simp) noRefusal
  refine ⟨rearranged, fun v => ?_⟩
  rw [Schema.check_eq_ok_nil_iff (Samples.readable_schemaAt _ _ _),
    Schema.check_eq_ok_nil_iff (Samples.readable_schemaAt _ _ _)]
  exact rearranged.accepts_iff v

/-- A document of two fields, beside a copy of it with its fields the other way round. -/
theorem predict_of_swapped_fields :
    let document : Value := .map .plain [(.text "a", .number (.int 1)), (.text "b", .null)]
    let swapped : Value := .map .plain [(.text "b", .null), (.text "a", .number (.int 1))]
    ∃ schema schema', predict default [document] = .ok schema ∧
      predict default [swapped, document] = .ok schema' ∧ schema.Rearranged schema' ∧
      ∀ v, schema.check v = .ok [] ↔ schema'.check v = .ok [] := by
  dsimp only
  have returned : predict default
      [.map .plain [(.text "a", .number (.int 1)), (.text "b", .null)]] =
    .ok (.object [("a", false, .scalar "number"), ("b", false, .null)] true) := by
    rw [predict_of_written rfl]
    rfl
  have returned' : predict default
      [.map .plain [(.text "b", .null), (.text "a", .number (.int 1))],
        .map .plain [(.text "a", .number (.int 1)), (.text "b", .null)]] =
    .ok (.object [("b", false, .null), ("a", false, .scalar "number")] true) := by
    rw [predict_of_written rfl]
    rfl
  have steady :
      (Value.map .plain [(.text "a", .number (.int 1)), (.text "b", .null)]).LeavesSteady := by
    intro path v holds bare
    cases path with
    | nil =>
      rw [holds.eq_of_nil] at bare
      cases bare
    | cons step below =>
      obtain ⟨_, _, _, _, isList, -⟩ | ⟨_, _, key, item, isMap, among, -, holds⟩ := holds.cons_inv
      · cases isList
      · cases isMap
        simp only [List.mem_cons, Prod.mk.injEq, List.not_mem_nil, or_false] at among
        rcases among with ⟨-, rfl⟩ | ⟨-, rfl⟩ <;> cases holds <;> exact .inl (by decide +kernel)
  have copied : ∀ document ∈ [Value.map .plain [(.text "a", .number (.int 1)), (.text "b", .null)]],
      document ∈ [Value.map .plain [(.text "a", .number (.int 1)), (.text "b", .null)]] ∧
        document.LeavesSteady :=
    fun document member => ⟨member, List.mem_singleton.mp member ▸ steady⟩
  have reordered := predict_rearranged returned returned' copied
    ⟨_, .refl _, .cons (.entries .plain (.swap _ _ _)) (.cons (.refl _) .nil)⟩
  exact ⟨_, _, returned, returned', reordered⟩

end SchemaInference
