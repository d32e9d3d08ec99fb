import SchemaInference.Proofs.PositionAcceptance
import SchemaInference.Proofs.Prediction

/-! Precision: a strict schema lets in nothing that was not seen. Whatever it accepts has, at every
place that the samples pin down, a path that was observed, a tag that was observed there, and, where
it is a map, all keys that no sampled map lacked. -/
namespace SchemaInference

/-- A value that can be written as JSON: keys are texts, and no map has one twice. -/
inductive Value.IsJson : Value → Prop where
  | null : IsJson .null
  | bool (b : Bool) : IsJson (.bool b)
  | int (n : Int) : IsJson (.number (.int n))
  | real (x : Binary64) : IsJson (.number (.real x))
  | text (text : String) : IsJson (.text text)
  | list (below : ∀ item ∈ items, IsJson item) : IsJson (.list .list items)
  | map (texts : ∀ entry ∈ entries, ∃ name, entry.1 = .text name)
      (distinct : (entries.map fun entry => entry.1.alone).Nodup)
      (below : ∀ entry ∈ entries, IsJson entry.2) : IsJson (.map .plain entries)

theorem Value.IsJson.of_holds {v w : Value} {path : Path} (json : v.IsJson)
    (holds : v.Holds path w) : w.IsJson := by
  induction holds with
  | here => exact json
  | item found _ ih =>
    cases json with
    | list below => exact ih (below _ (List.mem_of_getElem? found))
  | entry member _ ih =>
    cases json with
    | map texts distinct below => exact ih (below _ member)

theorem Value.IsJson.of_items {v : Value} {items : List Value} (json : v.IsJson)
    (isList : v.items? = some items) : ∀ item ∈ items, item.IsJson := by
  cases json with
  | list below => exact Option.some.inj isList ▸ below
  | _ => cases isList

theorem Value.IsJson.keys_nodup {v : Value} {entries : List (String × Value)} (json : v.IsJson)
    (isMap : v.entries? = some entries) : (Assoc.keys entries).Nodup := by
  cases json with
  | map texts distinct below =>
    cases isMap
    rw [Assoc.keys, List.map_map]
    exact distinct
  | _ => cases isMap

theorem Value.IsJson.of_entries {v : Value} {entries : List (String × Value)} (json : v.IsJson)
    (isMap : v.entries? = some entries) : ∀ entry ∈ entries, entry.2.IsJson := by
  cases json with
  | map texts distinct below =>
    cases isMap
    intro entry member
    obtain ⟨pair, among, rfl⟩ := List.mem_map.mp member
    exact below pair among
  | _ => cases isMap

/-- Of JSON values, only maps are objects. -/
theorem Value.IsJson.isMap_of_tag {v : Value} (json : v.IsJson) (tag : v.tag = "object") :
    v.isMap = true := by
  have kind : v.kind = .object := Kind.tag_injective tag
  cases json <;> first | rfl | cases kind

namespace Samples

/-- The maps at a path make a record. -/
def IsRecord (s : Samples) (c : Config) (path : Path) : Prop :=
  ∃ n record, (PathTree.ofSamples s).node? path = some n ∧
    (PathTree.ofSamples s).record? c n = some record

instance (s : Samples) (c : Config) (path : Path) : Decidable (s.IsRecord c path) :=
  decidable_of_iff (((PathTree.ofSamples s).node? path).any fun n =>
      ((PathTree.ofSamples s).record? c n).isSome) <| by
    simp [Option.any_eq_true, Option.isSome_iff_exists, IsRecord]

variable {s : Samples} {c : Config} {path : Path} {n : PathNode} {u w : Value} {step : Segment}

theorem record?_eq_none (node : s.NodeOf path n) (noRecord : ¬ s.IsRecord c path) :
    (PathTree.ofSamples s).record? c n = none := by
  cases found : (PathTree.ofSamples s).record? c n with
  | none => rfl
  | some record => exact absurd ⟨n, record, node.found, found⟩ noRecord

/-- Only maps are accepted by what stands for the maps of a position. -/
theorem entries_of_mapMembers (shallow : path.length ≤ c.maxDepth)
    (accepted : ∃ member ∈ s.mapMembers c path n, member.accepts w = true) :
    n.keySets ≠ [] ∧ ∃ entries, w.entries? = some entries := by
  obtain ⟨member, among, accepted⟩ := accepted
  obtain ⟨filled, ⟨-, rfl⟩ | ⟨_, _, _, -, rfl⟩⟩ := (mem_mapMembers_iff shallow).mp among
  · obtain ⟨entries, found, -⟩ := Schema.accepts_object.mp accepted
    exact ⟨filled, entries, found⟩
  · obtain ⟨entries, found, -⟩ := Schema.accepts_record.mp accepted
    exact ⟨filled, entries, found⟩

/-- An item of an accepted list is accepted one step below, if some sampled list had items. -/
theorem accepts_item (closed : s.Closed c.maxDepth) (there : path ∈ s.paths)
    (shallow : path.length ≤ c.maxDepth) {form : ListForm} {items : List Value}
    (accepted : (s.schemaAt c path).accepts (.list form items) = true)
    (below : path ++ [.wildcard] ∈ s.paths) {item : Value} (member : item ∈ items) :
    (s.schemaAt c (path ++ [.wildcard])).accepts item = true := by
  obtain ⟨n, node⟩ := closed.exists_node there
  rcases (accepts_schemaAt closed node there shallow).mp accepted with
    ⟨-, isNull⟩ | scalar | list | map
  · cases isNull
  · obtain ⟨⟨u, isScalar, tag⟩, -⟩ := accepts_scalarMembers.mp scalar
    have notList : u.isList = false := by
      have := (List.mem_filter.mp isScalar).2
      simp_all
    rw [Value.tag_eq_array_iff.mp tag] at notList
    cases notList
  · obtain ⟨-, _, found, each⟩ := (accepts_listMembers node).mp list
    cases found
    exact each below item member
  · obtain ⟨-, entries, found⟩ := entries_of_mapMembers shallow map
    cases found

/-- A map that is accepted where maps make no record is accepted by its fields. -/
theorem accepts_map (closed : s.Closed c.maxDepth) (node : s.NodeOf path n) (there : path ∈ s.paths)
    (shallow : path.length ≤ c.maxDepth) (noRecord : ¬ s.IsRecord c path)
    (noLeaf : ∀ u ∈ s.valuesAt path, u.tag ≠ "object") {form : MapForm}
    {entries : List (Value × Value)}
    (accepted : (s.schemaAt c path).accepts (.map form entries) = true) :
    n.keySets ≠ [] ∧ ∃ present, (Value.map form entries).entries? = some present ∧
      (∀ name ∈ n.names,
        (∀ item, lastUnder name present = some item →
          (s.schemaAt c (path ++ [.key name])).accepts item = true) ∧
        (lastUnder name present = none → n.lacks name = true)) ∧
      (c.strictObjects = true → ∀ name ∈ Assoc.keys present, name ∈ n.names) := by
  rcases (accepts_schemaAt closed node there shallow).mp accepted with
    ⟨-, isNull⟩ | scalar | list | map
  · cases isNull
  · obtain ⟨⟨u, isScalar, tag⟩, -⟩ := accepts_scalarMembers.mp scalar
    exact absurd tag (noLeaf u (node.values ▸ (List.mem_filter.mp isScalar).1))
  · obtain ⟨-, _, found, -⟩ := (accepts_listMembers node).mp list
    cases found
  · exact (accepts_mapMembers (record?_eq_none node noRecord)).mp map

/-! ## Places that are pinned down -/

/-- A place in a value that samples pin down: on the way to it there is no record, and where there
is a list, some sampled list had items. -/
structure Pins (s : Samples) (c : Config) (v : Value) (path : Path) : Prop where
  noRecord : ∀ above : Path, above <+: path → above ≠ path → ¬ s.IsRecord c above.flat
  filled : ∀ (above : Path) u, above <+: path → above ≠ path → v.Holds above u → u.isList = true →
    ∃ sample ∈ s.valuesAt above.flat, ∃ items, sample.items? = some items ∧ items ≠ []

private theorem ne_concat {above front : Path} (isPrefix : above <+: front) :
    above ≠ front ++ [step] := by
  rintro rfl
  exact absurd isPrefix.length_le (by simp)

theorem Pins.front {v : Value} {front : Path} (pins : s.Pins c v (front ++ [step])) :
    s.Pins c v front where
  noRecord above isPrefix _ :=
    pins.noRecord above (isPrefix.trans (List.prefix_append _ _)) (ne_concat isPrefix)
  filled above u isPrefix _ :=
    pins.filled above u (isPrefix.trans (List.prefix_append _ _)) (ne_concat isPrefix)

/-- What stands one step below an accepted value is at a path of its own and accepted there. -/
theorem accepts_step (closed : s.Closed c.maxDepth) (strict : c.strictObjects = true)
    (there : path ∈ s.paths) (shallow : path.length ≤ c.maxDepth)
    (noLeaf : ∀ u ∈ s.valuesAt path, u.tag ≠ "object") (noRecord : ¬ s.IsRecord c path)
    (filled : u.isList = true →
      ∃ sample ∈ s.valuesAt path, ∃ items, sample.items? = some items ∧ items ≠ [])
    (json : u.IsJson) (accepted : (s.schemaAt c path).accepts u = true)
    (holds : u.Holds [step] w) :
    path ++ [step.flat] ∈ s.paths ∧ (s.schemaAt c (path ++ [step.flat])).accepts w = true := by
  cases holds with
  | item found below =>
    cases below
    obtain ⟨sample, among, items, isList, some⟩ := filled rfl
    have below : path ++ [Segment.wildcard] ∈ s.paths :=
      closed.items path sample items shallow among isList some
    exact ⟨below, accepts_item closed there shallow accepted below (List.mem_of_getElem? found)⟩
  | @entry _ entries key item _ _ member below =>
    cases below
    obtain ⟨n, node⟩ := closed.exists_node there
    obtain ⟨-, present, found, fields, known⟩ :=
      accepts_map closed node there shallow noRecord noLeaf accepted
    cases found
    have among : (key.alone, w) ∈ entries.map fun entry => (entry.1.alone, entry.2) :=
      List.mem_map.mpr ⟨_, member, rfl⟩
    have name := known strict key.alone (Assoc.mem_keys_of_mem among)
    refine ⟨(node.mem_names closed).mp name, (fields _ name).1 w ?_⟩
    cases json with
    | map texts distinct below =>
      refine Assoc.find?_of_nodup ?_ (List.mem_reverse.mpr among)
      simpa [Assoc.keys, Function.comp_def] using distinct

end Samples

/-- What documents hold under a flat path. -/
def Observed (documents : List Value) (path : Path) (u : Value) : Prop :=
  ∃ document ∈ documents, ∃ concrete, document.Holds concrete u ∧ concrete.flat = path

namespace Samples
variable {c : Config} {documents : List Value} {path : Path} {v w : Value}

/-- Where documents in JSON are entered, no leaf is an object. -/
theorem no_leaf_object (json : ∀ document ∈ documents, document.IsJson)
    (shallow : path.length ≤ c.maxDepth) :
    ∀ u ∈ (samplesOf c documents).valuesAt path, u.tag ≠ "object" := by
  intro u member tag
  obtain ⟨document, among, concrete, holds, rfl, counts⟩ := mem_valuesAt_ofDocuments.mp member
  have isMap := ((json document among).of_holds holds).isMap_of_tag tag
  rcases counts with ⟨-, notMap⟩ | deep
  · rw [isMap] at notMap
    cases notMap
  · rw [Path.length_flat] at shallow
    omega

/-- Down a path that samples pin down, what an accepted value holds is accepted where it stands. -/
theorem accepts_along (filled : documents ≠ []) (strict : c.strictObjects = true)
    (json : ∀ document ∈ documents, document.IsJson) (vJson : v.IsJson)
    (accepted : ((samplesOf c documents).schemaAt c []).accepts v = true)
    (shallow : path.length ≤ c.maxDepth) (pins : (samplesOf c documents).Pins c v path)
    (holds : v.Holds path w) :
    path.flat ∈ (samplesOf c documents).paths ∧
      ((samplesOf c documents).schemaAt c path.flat).accepts w = true := by
  have closed : (samplesOf c documents).Closed c.maxDepth := closed_ofDocuments filled
  induction path using List.reverseRecOn generalizing w with
  | nil =>
    cases holds
    exact ⟨closed.root, accepted⟩
  | append_singleton front step ih =>
    obtain ⟨u, above, below⟩ := holds.parent
    have frontShallow : front.length ≤ c.maxDepth := by
      rw [List.length_append] at shallow
      omega
    have flatShallow : (Path.flat front).length ≤ c.maxDepth := by rwa [Path.length_flat]
    have proper : front ≠ front ++ [step] := by simp
    obtain ⟨there, uAccepted⟩ := ih frontShallow pins.front above
    rw [Path.flat_append]
    exact accepts_step closed strict there flatShallow (no_leaf_object json flatShallow)
      (pins.noRecord front (List.prefix_append _ _) proper)
      (pins.filled front u (List.prefix_append _ _) proper above) (vJson.of_holds above)
      uAccepted below

/-- What is accepted at a position has the tag of something that was observed there. -/
theorem observed_tag (filled : documents ≠ []) (there : path ∈ (samplesOf c documents).paths)
    (shallow : path.length ≤ c.maxDepth)
    (accepted : ((samplesOf c documents).schemaAt c path).accepts w = true) :
    ∃ u, Observed documents path u ∧ u.tag = w.tag := by
  have closed : (samplesOf c documents).Closed c.maxDepth := closed_ofDocuments filled
  obtain ⟨n, node⟩ := closed.exists_node there
  have observed (u : Value) (member : u ∈ n.values) : Observed documents path u := by
    rw [node.values] at member
    obtain ⟨document, among, concrete, holds, same, -⟩ := mem_valuesAt_ofDocuments.mp member
    exact ⟨document, among, concrete, holds, same⟩
  rcases (accepts_schemaAt closed node there shallow).mp accepted with
    ⟨nullable, rfl⟩ | scalar | list | map
  · obtain ⟨u, member, isNull⟩ := List.any_eq_true.mp nullable
    refine ⟨u, observed u member, ?_⟩
    cases u <;> first | rfl | cases isNull
  · obtain ⟨⟨u, scalar, tag⟩, -⟩ := accepts_scalarMembers.mp scalar
    exact ⟨u, observed u (List.mem_filter.mp scalar).1, tag⟩
  · obtain ⟨seen, items, isList, -⟩ := (accepts_listMembers node).mp list
    obtain ⟨u, member⟩ := List.exists_mem_of_ne_nil _ seen
    obtain ⟨among, uList⟩ := List.mem_filter.mp member
    refine ⟨u, observed u among, ?_⟩
    have wList : w.isList = true := by cases w <;> first | rfl | cases isList
    rw [Value.tag_eq_array_iff.mpr uList, Value.tag_eq_array_iff.mpr wList]
  · obtain ⟨seen, entries, isMap⟩ := entries_of_mapMembers shallow map
    obtain ⟨keys, member⟩ := List.exists_mem_of_ne_nil _ seen
    rw [node.keySets] at member
    obtain ⟨document, among, concrete, form, entries, holds, same, -⟩ :=
      mem_keySetsAt_ofDocuments.mp member
    refine ⟨_, ⟨document, among, concrete, holds, same⟩, ?_⟩
    cases w <;> first | rfl | cases isMap

/-- A map that is accepted where maps make no record has every key that no observed map lacks. -/
theorem observed_keys (filled : documents ≠ []) (json : ∀ document ∈ documents, document.IsJson)
    (there : path ∈ (samplesOf c documents).paths) (shallow : path.length ≤ c.maxDepth)
    (noRecord : ¬ (samplesOf c documents).IsRecord c path) {form : MapForm}
    {entries : List (Value × Value)}
    (accepted : ((samplesOf c documents).schemaAt c path).accepts (.map form entries) = true)
    {name : String} (everywhere : ∀ form' entries', Observed documents path (.map form' entries') →
      name ∈ entries'.map fun entry => entry.1.alone) :
    name ∈ entries.map fun entry => entry.1.alone := by
  have closed : (samplesOf c documents).Closed c.maxDepth := closed_ofDocuments filled
  obtain ⟨n, node⟩ := closed.exists_node there
  obtain ⟨seen, present, found, fields, -⟩ :=
    accepts_map closed node there shallow noRecord (no_leaf_object json shallow) accepted
  cases found
  have all (keys : List String) (member : keys ∈ n.keySets) : name ∈ keys := by
    rw [node.keySets] at member
    obtain ⟨document, among, concrete, form', entries', holds, same, -, rfl⟩ :=
      mem_keySetsAt_ofDocuments.mp member
    exact everywhere form' entries' ⟨document, among, concrete, holds, same⟩
  have isName : name ∈ n.names := by
    obtain ⟨keys, member⟩ := List.exists_mem_of_ne_nil _ seen
    rw [node.mem_names closed]
    exact closed.keys path keys (node.keySets ▸ member) name (all keys member)
  have kept : n.lacks name = false := by simpa [PathNode.lacks] using all
  by_contra lacking
  have absent : lastUnder name (entries.map fun entry => (entry.1.alone, entry.2)) = none := by
    rw [lastUnder, Assoc.find?_eq_none_iff]
    simpa [Assoc.keys, Function.comp_def] using lacking
  rw [(fields name isName).2 absent] at kept
  cases kept

end Samples

/-- Precision: in a value that a strict prediction from JSON documents accepts, what stands at a
place that the samples pin down is at an observed path and has a tag observed there; and where maps
make no record, a map has all the keys that every observed one has. -/
theorem observed_of_accepted {c : Config} {documents : List Value} {schema : Schema} {v w : Value}
    {path : Path} (strict : c.strictObjects = true)
    (json : ∀ document ∈ documents, document.IsJson)
    (returned : predict c documents = .ok schema) (vJson : v.IsJson)
    (accepted : schema.check v = .ok []) (holds : v.Holds path w)
    (shallow : path.length ≤ c.maxDepth) (pins : (samplesOf c documents).Pins c v path) :
    path.flat ∈ (samplesOf c documents).paths ∧
      (∃ u, Observed documents path.flat u ∧ u.tag = w.tag) ∧
      ∀ form entries, w = .map form entries → ¬ (samplesOf c documents).IsRecord c path.flat →
        ∀ name, (∀ form' entries', Observed documents path.flat (.map form' entries') →
            name ∈ entries'.map fun entry => entry.1.alone) →
          name ∈ entries.map fun entry => entry.1.alone := by
  obtain ⟨filled, rfl⟩ := predict_eq returned
  have noIssues := (Schema.check_eq_ok_nil_iff (Samples.readable_schemaAt _ _ _)).mp accepted
  have flatShallow : path.flat.length ≤ c.maxDepth := by rwa [Path.length_flat]
  obtain ⟨there, here⟩ :=
    Samples.accepts_along filled strict json vJson noIssues shallow pins holds
  refine ⟨there, Samples.observed_tag filled there flatShallow here, ?_⟩
  rintro form entries rfl noRecord name everywhere
  exact Samples.observed_keys filled json there flatShallow noRecord here everywhere

/-- An item of a list under a key, in a document of the same shape as the one sampled. -/
theorem observed_item :
    let documents : List Value := [.map .plain [(.text "a", .list .list [.number (.int 1)])]]
    let schema : Schema := .object [("a", false, .list (.scalar "number"))] true
    let v : Value := .map .plain [(.text "a", .list .list [.number (.int 1), .number (.int 2)])]
    predict default documents = .ok schema ∧ schema.check v = .ok [] ∧
      [.key "a", .wildcard] ∈ (samplesOf default documents).paths ∧
      ∃ u, Observed documents [.key "a", .wildcard] u ∧ u.tag = "number" := by
  -- The run is evaluated while its documents are still written out.
  have returned : predict default [.map .plain [(.text "a", .list .list [.number (.int 1)])]] =
      .ok (.object [("a", false, .list (.scalar "number"))] true) := by
    rw [predict_of_written rfl]
    rfl
  intro documents schema v
  have number (n : Int) : (Value.number (.int n)).IsJson := .int n
  have json (items : List Int) :
      (Value.map .plain [(.text "a", .list .list (items.map fun n => .number (.int n)))]).IsJson :=
    .map (by simp) (by simp) (by simpa using .list (by simpa using fun n _ => number n))
  have accepted : schema.check v = .ok [] := rfl
  have holds : v.Holds [.key "a", .item 1] (.number (.int 2)) :=
    .entry List.mem_cons_self (.item rfl (.here _))
  have pins : (samplesOf default documents).Pins default v [.key "a", .item 1] := by
    have proper (above : Path) (isPrefix : above <+: [.key "a", .item 1])
        (apart : above ≠ [.key "a", .item 1]) : above = [] ∨ above = [.key "a"] := by
      rcases List.prefix_cons_iff.mp isPrefix with rfl | ⟨rest, rfl, below⟩
      · exact .inl rfl
      · rcases List.prefix_cons_iff.mp below with rfl | ⟨rest, rfl, last⟩
        · exact .inr rfl
        · rw [List.prefix_nil.mp last] at apart
          exact absurd rfl apart
    constructor
    · intro above isPrefix apart
      rcases proper above isPrefix apart with rfl | rfl <;> decide +kernel
    · intro above u isPrefix apart holds isList
      rcases proper above isPrefix apart with rfl | rfl
      · rw [holds.eq_of_nil] at isList
        cases isList
      · exact ⟨.list .list [.number (.int 1)], List.mem_cons_self, _, rfl, by simp⟩
  obtain ⟨there, tag, -⟩ := observed_of_accepted rfl (by simpa [documents] using json [1]) returned
    (json [1, 2]) accepted holds (by decide) pins
  exact ⟨returned, accepted, there, tag⟩

end SchemaInference
