import SchemaInference.Proofs.Records
import SchemaInference.Proofs.Prediction

/-! The normal form of inferred schemas. A position has null beside its alternatives, at most one of
which is for lists and one for maps, and its scalars are of different tags; so unions never hold a
member twice, one in another or null beside null, although each was put together from labels that
were printed and read again. Anything at all is accepted below the greatest depth, and in lists of
which none had an item. -/
namespace SchemaInference

namespace Schema

/-- What a schema has at a flat path: itself, what it takes in another form, and what it says of
items, of fields and of values under any key. -/
inductive NodeAt : Schema → Path → Schema → Prop where
  | here (s : Schema) : NodeAt s [] s
  | nullable {inner node : Schema} {path : Path} (below : NodeAt inner path node) :
      NodeAt (.nullable inner) path node
  | member {members : List Schema} {s node : Schema} {path : Path} (among : s ∈ members)
      (below : NodeAt s path node) : NodeAt (.union members) path node
  | element {element node : Schema} {path : Path} (below : NodeAt element path node) :
      NodeAt (.list element) (.wildcard :: path) node
  | value {pattern : Option String} {rule : Option KeyRule} {value node : Schema} {path : Path}
      (name : String) (below : NodeAt value path node) :
      NodeAt (.record pattern rule value) (.key name :: path) node
  | field {shape : List (String × Bool × Schema)} {strict optional : Bool} {name : String}
      {s node : Schema} {path : Path} (isField : (name, optional, s) ∈ shape)
      (below : NodeAt s path node) : NodeAt (.object shape strict) (.key name :: path) node

/-- Whether a schema is for lists. -/
def isList : Schema → Bool
  | .list _ => true
  | _ => false

/-- Whether a schema is for maps. -/
def isMapping : Schema → Bool
  | .record .. | .object .. => true
  | _ => false

/-- What the constructors of a schema leave out. A union has members that differ, none of which
could be opened, and at most one of them each for lists and for maps; null is let in once; an
enumeration has the values that it would be found with; and a record has a strong pattern and
scalars under its keys. -/
def Normal (c : Config) : Schema → Prop
  | .any | .scalar _ | .list _ | .object .. => True
  | .enum values => values.Pairwise (· < ·) ∧ enumOf? c values = some values
  | .nullable inner => inner ≠ .any ∧ (∀ s, inner ≠ .nullable s) ∧ inner ≠ null ∧
      ∀ members, inner = .union members → null ∉ members
  | .union members => 2 ≤ members.length ∧ members.Pairwise Differ ∧
      (∀ s ∈ members, s ≠ .any ∧ (∀ others, s ≠ .union others) ∧ ∀ inner, s ≠ .nullable inner) ∧
      members.countP isList ≤ 1 ∧ members.countP isMapping ≤ 1
  | .record pattern rule value =>
      ((pattern = some "snake_case" ∧ rule = some ⟨"^[a-z]+(?:_[a-z]+)*$"⟩) ∨
        ∃ stem ≠ "", pattern = some "prefixed" ∧ rule = some (KeyPattern.stemRule stem)) ∧
      ∀ s ∈ value.alternatives, ∃ tag, s = .scalar tag

variable {c : Config} {members : List Schema} {node : Schema} {path : Path}

/-- A node of alternatives is their union or a node of one of them. -/
theorem NodeAt.of_ofAlternatives (filled : members ≠ [])
    (reached : (ofAlternatives members).NodeAt path node) :
    (path = [] ∧ node = .union members ∧ 2 ≤ members.length) ∨
      ∃ member ∈ members, member.NodeAt path node := by
  match members with
  | [] => contradiction
  | [only] => exact .inr ⟨only, List.mem_cons_self, reached⟩
  | first :: second :: rest =>
    cases reached with
    | here => exact .inl ⟨rfl, rfl, by simp⟩
    | member among below => exact .inr ⟨_, among, below⟩

/-- A node of alternatives and null is null, what lets null in, or a node of the alternatives. -/
theorem NodeAt.of_besideNull {nullable : Bool}
    (reached : (besideNull nullable members).NodeAt path node) :
    (path = [] ∧ (node = null ∨ (members ≠ [] ∧ node = .nullable (ofAlternatives members)) ∨
      (node = .union members ∧ 2 ≤ members.length))) ∨
      ∃ member ∈ members, member.NodeAt path node := by
  by_cases none : members = []
  · subst none
    cases reached
    exact .inl ⟨rfl, .inl rfl⟩
  · have whole : (ofAlternatives members).NodeAt path node ∨
        (path = [] ∧ node = .nullable (ofAlternatives members)) := by
      rw [besideNull] at reached
      · cases nullable with
        | false => exact .inl reached
        | true =>
          cases reached with
          | here => exact .inr ⟨rfl, rfl⟩
          | nullable below => exact .inl below
      · exact none
    rcases whole with inside | ⟨root, isNullable⟩
    · exact (inside.of_ofAlternatives none).imp_left
        (And.imp_right fun isUnion => .inr (.inr isUnion))
    · exact .inl ⟨root, .inr (.inl ⟨none, isNullable⟩)⟩

theorem NodeAt.of_scalarOf {enum : Option (List String)} {tag : String}
    (reached : (scalarOf enum tag).NodeAt path node) : path = [] ∧ node = scalarOf enum tag := by
  have kind := Samples.kindName_scalarOf enum tag
  generalize scalarOf enum tag = s at reached kind ⊢
  cases reached with
  | here => exact ⟨rfl, rfl⟩
  | _ => simp [kindName] at kind

/-! ## The constructors -/

/-- An enumeration that was found in texts would be found in its own values. -/
theorem normal_scalarOf (c : Config) (texts : List String) (tag : String) :
    (scalarOf (enumOf? c texts) tag).Normal c := by
  rcases scalarOf_cases (enumOf? c texts) tag with ⟨values, found, made⟩ | made <;> rw [made]
  · obtain ⟨same, -⟩ := enumOf?_eq_some found
    have sorted : ascending values = values :=
      ascending_of_sorted (same ▸ ascending_sorted texts)
    refine ⟨ascending_sorted _, ?_⟩
    rw [sorted]
    exact enumOf?_values found
  · trivial

/-- Null beside alternatives of which none accepts it on its face is let in once. -/
theorem normal_nullable (apart : Apart members) (filled : members ≠ []) :
    (Schema.nullable (ofAlternatives members)).Normal c := by
  have closed := admitsNull_ofAlternatives apart filled
  refine ⟨?_, ?_, ?_, ?_⟩
  · intro same
    rw [same] at closed
    cases closed
  · intro inner same
    rw [same] at closed
    cases closed
  · intro same
    rw [same] at closed
    cases closed
  · intro others same among
    rw [same] at closed
    have itself : Schema.same null null = true := by simp [null, Schema.same]
    exact absurd itself (List.any_eq_false.mp closed null among)

theorem normal_union_of_scalars {tags : List String} (distinct : tags.Nodup)
    (several : 2 ≤ tags.length) : (Schema.union (tags.map .scalar)).Normal c := by
  refine ⟨by simpa using several, scalarOf_pairwise none distinct, ?_, ?_, ?_⟩
  · simp
  · simp [List.countP_map, Function.comp_def, isList]
  · simp [List.countP_map, Function.comp_def, isMapping]

theorem alternatives_of_scalars {tags : List String} (filled : tags ≠ []) :
    (ofAlternatives (tags.map .scalar)).alternatives = tags.map .scalar := by
  match tags with
  | [] => contradiction
  | [only] => rfl
  | first :: second :: rest => rfl

/-- What a label of values is read as is in normal form, through and through. -/
theorem NodeAt.of_scalars {tags : List String} (filled : tags ≠ []) (distinct : tags.Nodup)
    (reached : (ofAlternatives (tags.map .scalar)).NodeAt path node) :
    node.Normal c ∧ node ≠ .any := by
  rcases reached.of_ofAlternatives (by simpa using filled) with
    ⟨-, rfl, several⟩ | ⟨member, among, inside⟩
  · exact ⟨normal_union_of_scalars distinct (by simpa using several), by simp⟩
  · obtain ⟨tag, -, rfl⟩ := List.mem_map.mp among
    cases inside
    exact ⟨trivial, by simp⟩

end Schema

/-- The rule of a record: that of words with underscores, or that of a stem. -/
theorem KeyPattern.rule_of_strong {names : List String} {pattern : KeyPattern}
    (common : ofKeys (names.map .key) = some pattern)
    (strong : pattern = .prefixed ∨ pattern = .snakeCase) :
    (some pattern.name = some "snake_case" ∧
      pattern.rule? (if pattern = .prefixed then sharedStem names else none) =
        some ⟨"^[a-z]+(?:_[a-z]+)*$"⟩) ∨
      ∃ shared ≠ "", some pattern.name = some "prefixed" ∧
        pattern.rule? (if pattern = .prefixed then sharedStem names else none) =
          some (stemRule shared) := by
  rcases strong with rfl | rfl
  · rcases ofKeys_cases common (by decide) with ⟨other, -⟩ | ⟨-, shared, filled, found, -⟩
    · contradiction
    · refine .inr ⟨shared, filled, rfl, ?_⟩
      rw [if_pos rfl, found, rule?_prefixed filled]
  · exact .inl ⟨rfl, rfl⟩

/-- At a flat path of documents there are lists, and none of them has an item. -/
def OnlyEmptyLists (documents : List Value) (path : Path) : Prop :=
  (∃ document ∈ documents, ∃ place form,
    document.Holds place (.list form []) ∧ place.flat = path) ∧
  ∀ document ∈ documents, ∀ place form items,
    document.Holds place (.list form items) → place.flat = path → items = []

/-- Where a schema may accept anything: too deep to be looked at, or for the items of lists that
have none. -/
def Unseen (c : Config) (documents : List Value) (path : Path) : Prop :=
  c.maxDepth < path.length ∨ ∃ front, path = front ++ [.wildcard] ∧ OnlyEmptyLists documents front

namespace Samples
open Schema
variable {c : Config} {documents : List Value} {path : Path} {n : PathNode}

/-- The alternatives of a position are not in one another, and one is for lists and one for maps at
the most. -/
theorem normal_union_members (s : Samples) (n : PathNode) (shallow : path.length ≤ c.maxDepth)
    (several : 2 ≤ (scalarMembers c n ++ s.listMembers c n ++ s.mapMembers c path n).length) :
    (Schema.union (scalarMembers c n ++ s.listMembers c n ++ s.mapMembers c path n)).Normal c := by
  have apart := apart_members s n shallow
  have scalars (member : Schema) (among : member ∈ scalarMembers c n) :
      ¬ member.isList = true ∧ ¬ member.isMapping = true := by
    have kind := (mem_scalarMembers among).2
    cases member <;> simp [kindName, isList, isMapping] at kind ⊢
  have lists : (s.listMembers c n).countP isList ≤ 1 := by
    refine List.countP_le_length.trans ?_
    unfold listMembers
    split <;> simp
  have maps : (s.mapMembers c path n).countP isMapping ≤ 1 := by
    refine List.countP_le_length.trans ?_
    unfold mapMembers
    split
    · simp
    · split <;> simp
  have noMapping : (s.listMembers c n).countP isMapping = 0 := by
    refine List.countP_eq_zero.mpr fun member among => ?_
    obtain ⟨element, rfl⟩ := mem_listMembers among
    simp [isMapping]
  have noList : (s.mapMembers c path n).countP isList = 0 := by
    refine List.countP_eq_zero.mpr fun member among => ?_
    rcases mem_mapMembers shallow among with ⟨_, _, _, rfl⟩ | ⟨_, _, rfl⟩ <;> simp [isList]
  refine ⟨several, members_pairwise s n shallow, fun member among => ?_, ?_, ?_⟩
  · have closed := apart.closed member among
    refine ⟨?_, apart.simple member among, ?_⟩
    · rintro rfl
      cases closed
    · rintro inner rfl
      cases closed
  · rw [List.countP_append, List.countP_append, noList,
      List.countP_eq_zero.mpr fun member among => (scalars member among).1]
    omega
  · rw [List.countP_append, List.countP_append, noMapping,
      List.countP_eq_zero.mpr fun member among => (scalars member among).2]
    omega

/-- Maps make an object of their fields, or a record in normal form of which every value is one of
some scalars. -/
theorem NodeOf.mem_mapMembers_cases {s : Samples} (node : s.NodeOf path n)
    (closed : s.Closed c.maxDepth) (shallow : path.length ≤ c.maxDepth) {member : Schema}
    (among : member ∈ s.mapMembers c path n) :
    member = .object (s.fieldsAt c path n) c.strictObjects ∨
      ∃ pattern rule tags, tags ≠ [] ∧ tags.Nodup ∧ member.Normal c ∧
        member = .record pattern rule (ofAlternatives (tags.map .scalar)) := by
  obtain ⟨-, ⟨-, rfl⟩ | ⟨_, stem, label, found, rfl⟩⟩ := (mem_mapMembers_iff shallow).mp among
  · exact .inl rfl
  · obtain ⟨pattern, isPattern, -, -, told, same⟩ := (node.record?_eq_some_iff closed).mp found
    cases same
    obtain ⟨-, common, strong⟩ := (node.recordPattern?_eq_some_iff closed).mp isPattern
    have seen : s.valuesUnder path n.names ≠ [] := by
      intro none
      rw [none] at told
      cases told
    have filled := shownTags_ne_nil (tagsUnder_filled seen)
    rw [ofLabel_labelUnder seen]
    refine .inr ⟨_, _, _, filled, shownTags_nodup (ofValues_tagsUnder n.names) _, ⟨?_, ?_⟩, rfl⟩
    · exact KeyPattern.rule_of_strong common strong
    · rw [alternatives_of_scalars filled]
      simp

/-- Lists for whose items there is no position have none. -/
theorem NodeOf.onlyEmptyLists (node : (samplesOf c documents).NodeOf path n)
    (closed : (samplesOf c documents).Closed c.maxDepth) (shallow : path.length ≤ c.maxDepth)
    (seen : n.lists ≠ []) (none : path ++ [.wildcard] ∉ (samplesOf c documents).paths) :
    OnlyEmptyLists documents path := by
  have empty (v : Value) (items : List Value) (isList : v.items? = some items)
      (member : v ∈ (samplesOf c documents).valuesAt path) : items = [] := by
    by_contra filled
    exact none (closed.items path v items shallow member isList filled)
  constructor
  · obtain ⟨v, isList⟩ := List.exists_mem_of_ne_nil _ seen
    obtain ⟨member, isList⟩ := List.mem_filter.mp isList
    rw [node.values] at member
    obtain ⟨document, documentMember, place, holds, same, -⟩ := mem_valuesAt_ofDocuments.mp member
    cases v with
    | list form items =>
      obtain rfl := empty _ items rfl member
      exact ⟨document, documentMember, place, form, holds, same⟩
    | _ => cases isList
  · intro document member place form items holds same
    have length : place.length ≤ c.maxDepth := by
      rw [← Path.length_flat, same]
      exact shallow
    exact empty _ items rfl (mem_valuesAt_ofDocuments.mpr
      ⟨document, member, place, holds, same, .inl ⟨length, rfl⟩⟩)

/-- What a schema says below a position is in normal form, and anything at all is accepted only
where nothing was seen. -/
theorem normal_schemaAt (filled : documents ≠ []) (there : path ∈ (samplesOf c documents).paths) :
    ∀ below node, ((samplesOf c documents).schemaAt c path).NodeAt below node →
      node.Normal c ∧ (node = .any → Unseen c documents (path ++ below)) := by
  have closed : (samplesOf c documents).Closed c.maxDepth := closed_ofDocuments filled
  refine closed.position_induction ?_ ?_ there
  · intro path _ deep below node reached
    rw [schemaAt_of_deep deep] at reached
    cases reached
    exact ⟨trivial, fun _ => .inl (by simpa using deep)⟩
  · intro path n isNode there shallow ih below node reached
    rw [schemaAt_eq closed isNode there shallow] at reached
    rcases reached.of_besideNull with
      ⟨-, rfl | ⟨some, rfl⟩ | ⟨rfl, several⟩⟩ | ⟨member, among, inside⟩
    · exact ⟨trivial, by simp [null]⟩
    · exact ⟨normal_nullable (apart_members _ n shallow) some, by simp⟩
    · exact ⟨normal_union_members _ n shallow several, by simp⟩
    · rw [List.mem_append, List.mem_append] at among
      rcases among with (scalar | list) | map
      · obtain ⟨tag, -, rfl⟩ := List.mem_map.mp scalar
        obtain ⟨-, rfl⟩ := inside.of_scalarOf
        exact ⟨normal_scalarOf c _ tag, fun isAny => absurd isAny (scalarOf_ne_any _ tag)⟩
      · have lists : n.lists ≠ [] := by
          intro none
          simp [listMembers, none] at list
        rw [listMembers_of_filled lists, List.mem_singleton, isNode.element?] at list
        subst list
        cases inside with
        | here => exact ⟨trivial, by simp⟩
        | element inside =>
          by_cases element : path ++ [Segment.wildcard] ∈ (samplesOf c documents).paths
          · rw [if_pos element] at inside
            rw [List.append_cons]
            exact ih _ element _ _ inside
          · rw [if_neg element] at inside
            cases inside
            exact ⟨trivial, fun _ =>
              .inr ⟨path, rfl, isNode.onlyEmptyLists closed shallow lists element⟩⟩
      · rcases isNode.mem_mapMembers_cases closed shallow map with
          rfl | ⟨pattern, rule, tags, some, distinct, normal, rfl⟩
        · cases inside with
          | here => exact ⟨trivial, by simp⟩
          | field isField inside =>
            obtain ⟨name, isName, same⟩ := List.mem_map.mp isField
            cases same
            rw [List.append_cons]
            exact ih _ ((isNode.mem_names closed).mp isName) _ _ inside
        · cases inside with
          | here => exact ⟨normal, by simp⟩
          | value name inside =>
            obtain ⟨normal, notAny⟩ := inside.of_scalars some distinct
            exact ⟨normal, fun isAny => absurd isAny notAny⟩

end Samples

/-- Every part of a schema that was inferred is in normal form, and anything at all is accepted only
below the greatest depth and for the items of lists that have none. -/
theorem predict_normal {c : Config} {documents : List Value} {schema node : Schema} {path : Path}
    (returned : predict c documents = .ok schema) (reached : schema.NodeAt path node) :
    node.Normal c ∧ (node = .any → Unseen c documents path) := by
  obtain ⟨filled, rfl⟩ := predict_eq returned
  have closed : (samplesOf c documents).Closed c.maxDepth := Samples.closed_ofDocuments filled
  exact Samples.normal_schemaAt filled closed.root path node reached

/-- Null is let in once, beside two alternatives; and the items of empty lists may be anything. -/
theorem normal_of_number_or_truth_value :
    let either : Schema := .union [.scalar "number", .scalar "boolean"]
    predict default [.null, .number (.int 1), .bool true] = .ok (.nullable either) ∧
      (Schema.nullable either).Normal default ∧ either.Normal default ∧
      predict default [.list .list []] = .ok (.list .any) ∧
      (Schema.list .any).NodeAt [.wildcard] .any ∧
      Unseen default [.list .list []] [.wildcard] := by
  intro either
  have returned : predict default [.null, .number (.int 1), .bool true] =
      .ok (.nullable either) := by
    rw [predict_of_written rfl]
    rfl
  have inner : (Schema.nullable either).NodeAt [] either := .nullable (.here either)
  have empty : predict default [.list .list []] = .ok (.list .any) := by rfl
  have element : (Schema.list .any).NodeAt [.wildcard] .any := .element (.here .any)
  exact ⟨returned, (predict_normal returned (.here _)).1, (predict_normal returned inner).1,
    empty, element, (predict_normal empty element).2 rfl⟩

end SchemaInference
