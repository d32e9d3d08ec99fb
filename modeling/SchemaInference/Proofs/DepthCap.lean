import SchemaInference.Proofs.Precision
import SchemaInference.Proofs.Preorder
import SchemaInference.Proofs.Resemblance
import SchemaInference.Proofs.SchemaLevels

/-! The greatest depth. What lies one level below it is filed, and nobody looks inside: emptying the
lists and maps there leaves the samples alike on the face, and so the prediction as it was. A schema
says nothing about what stands there either, unless it stands under a key of a record. -/
namespace SchemaInference

namespace Value

mutual

/-- A value with the lists and maps that stand so many levels down emptied. -/
def hollow : (levels : Nat) → Value → Value
  | 0, .list _ _ => .list .list []
  | 0, .map _ _ => .map .plain []
  | levels + 1, .list form items => .list form (hollowItems levels items)
  | levels + 1, .map form entries => .map form (hollowEntries levels entries)
  | _, v => v
termination_by structural _ v => v

def hollowItems (levels : Nat) : List Value → List Value
  | [] => []
  | v :: rest => hollow levels v :: hollowItems levels rest
termination_by structural items => items

def hollowEntries (levels : Nat) : List (Value × Value) → List (Value × Value)
  | [] => []
  | (key, v) :: rest => (key, hollow levels v) :: hollowEntries levels rest
termination_by structural entries => entries

end

variable {limit levels : Nat} {path : Path} {v v' w : Value}

theorem hollowItems_eq (levels : Nat) (items : List Value) :
    hollowItems levels items = items.map (hollow levels) := by
  induction items with
  | nil => rfl
  | cons v rest ih => rw [hollowItems, ih, List.map_cons]

theorem hollowEntries_eq (levels : Nat) (entries : List (Value × Value)) :
    hollowEntries levels entries = entries.map fun entry => (entry.1, entry.2.hollow levels) := by
  induction entries with
  | nil => rfl
  | cons entry rest ih => rw [hollowEntries, ih, List.map_cons]

theorem resembles_hollow (levels : Nat) (v : Value) : v.Resembles (v.hollow levels) := by
  cases v with
  | list form items => cases levels <;> exact .lists ..
  | map form entries => cases levels <;> exact .maps ..
  | _ => cases levels <;> exact .same _

/-- The children of an emptied value are its children, emptied one level higher. -/
theorem children_hollow (levels : Nat) (path : Path) (v : Value) :
    (v.hollow (levels + 1)).children path =
      (v.children path).map fun child => (child.1, child.2.hollow levels) := by
  cases v with
  | list form items =>
    simp [hollow, children, hollowItems_eq, List.zipIdx_map, Function.comp_def]
  | map form entries =>
    simp [hollow, children, hollowEntries_eq, Function.comp_def]
  | _ => rfl

end Value

/-- Visits that are alike: at one path, of values that are alike, or of maps with the same keys. -/
inductive Visit.Resembles : Visit → Visit → Prop where
  | sample (path : Path) {v v' : Value} (like : v.Resembles v') :
      Resembles (.sample path v) (.sample path v')
  | map (path : Path) (keys : List String) : Resembles (.map path keys) (.map path keys)
  | cut (path : Path) {v v' : Value} (like : v.Resembles v') :
      Resembles (.cut path v) (.cut path v')

namespace Value
variable {limit levels : Nat} {path : Path} {v v' w : Value}

theorem visitAt_hollow (depth : path.length + levels = limit + 1) (v : Value) :
    (visitAt limit path v).Resembles (visitAt limit path (v.hollow levels)) := by
  have like := resembles_hollow levels v
  by_cases deep : limit < path.length
  · simp only [visitAt, if_pos deep]
    exact .cut path like
  · cases levels with
    | zero => omega
    | succ levels =>
      cases v with
      | map form entries =>
        have keys : (hollowEntries levels entries).map (fun entry => entry.1.alone) =
            entries.map fun entry => entry.1.alone := by
          simp [hollowEntries_eq, Function.comp_def]
        simp only [visitAt, if_neg deep, hollow, keys]
        exact .map ..
      | _ =>
        simp only [visitAt, if_neg deep, hollow]
        exact .sample path like

/-- Emptying one level below the greatest depth keeps visits alike. -/
theorem visits_hollow (depth : path.length + levels = limit + 1) (v : Value) :
    List.Forall₂ Visit.Resembles (v.visits limit path) ((v.hollow levels).visits limit path) := by
  induction v using childInd generalizing path levels with
  | step v ih =>
    rw [visits_eq, visits_eq]
    refine .cons (visitAt_hollow depth v) ?_
    split
    · exact .nil
    · cases levels with
      | zero => omega
      | succ levels =>
        rw [visitsBelow_eq, visitsBelow_eq, children_hollow, List.flatMap_map]
        have each : ∀ child ∈ v.children path, List.Forall₂ Visit.Resembles
            (child.2.visits limit child.1) ((child.2.hollow levels).visits limit child.1) := by
          intro child isChild
          obtain ⟨step, childPath, -⟩ := mem_children.mp isChild
          apply ih path child isChild
          rw [childPath, List.length_append, List.length_singleton]
          omega
        generalize v.children path = children at each
        induction children with
        | nil => exact .nil
        | cons child rest later =>
          obtain ⟨first, others⟩ := List.forall_mem_cons.mp each
          exact List.rel_append first (later others)

/-- Emptying one level below the greatest depth leaves the keys that are written. -/
theorem keySteps_hollow (levels : Nat) (v : Value) :
    (v.hollow (levels + 1)).keySteps = v.keySteps := by
  cases v with
  | map form entries => simp [hollow, keySteps, hollowEntries_eq, List.flatMap_map]
  | _ => rfl

theorem keyStepsOf_hollow (depth : path.length + levels = limit + 1) (v : Value) :
    Samples.keyStepsOf limit ((v.hollow levels).placesAt path) =
      Samples.keyStepsOf limit (v.placesAt path) := by
  induction v using childInd generalizing path levels with
  | step v ih =>
    rw [Samples.keyStepsOf_placesAt, Samples.keyStepsOf_placesAt]
    split
    · rfl
    · cases levels with
      | zero => omega
      | succ levels =>
        rw [keySteps_hollow, children_hollow, List.flatMap_map]
        congr 1
        apply List.flatMap_congr
        intro child isChild
        obtain ⟨step, childPath, -⟩ := mem_children.mp isChild
        apply ih path child isChild
        rw [childPath, List.length_append, List.length_singleton]
        omega

end Value

/-! ## Emptied documents -/

namespace Samples
variable {s s' : Samples} {c : Config} {path : Path} {n : PathNode} {documents : List Value}

/-- Samples in the making that are alike: what they hold is, and their paths came in one order. -/
structure Abreast (s s' : Samples) : Prop where
  buckets : Assoc.keys s'.buckets = Assoc.keys s.buckets
  keySets : s'.keySets = s.keySets
  values : ∀ path, List.Forall₂ Value.Resembles (s.valuesAt path) (s'.valuesAt path)

/-- Filing visits that are alike keeps samples alike. -/
theorem Abreast.record {visit visit' : Visit} (alike : s.Abreast s')
    (like : visit.Resembles visit') : (s.record visit).Abreast (s'.record visit') where
  buckets := by
    cases like with
    | map visited keys => exact alike.buckets
    | sample visited like | cut visited like =>
      simp only [Samples.record]
      rw [Assoc.keys_update, Assoc.keys_update, alike.buckets]
  keySets := by
    cases like with
    | map visited keys => simp only [Samples.record, alike.keySets]
    | sample visited like | cut visited like => exact alike.keySets
  values path := by
    rw [valuesAt_record, valuesAt_record]
    apply List.rel_append (alike.values path)
    cases like with
    | map visited keys => simp [Visit.valueUnder?, Visit.value?]
    | sample visited like | cut visited like =>
      by_cases same : visited.flat = path <;>
        simp [Visit.valueUnder?, Visit.path, Visit.value?, same, like]

theorem Abreast.foldl_record {visits visits' : List Visit} (alike : s.Abreast s')
    (each : List.Forall₂ Visit.Resembles visits visits') :
    (visits.foldl Samples.record s).Abreast (visits'.foldl Samples.record s') := by
  induction each generalizing s s' with
  | nil => exact alike
  | cons like _ ih => exact ih (alike.record like)

theorem Abreast.resembles (alike : s.Abreast s') : s.Resembles s' where
  paths := by rw [paths, paths, alike.buckets, alike.keySets]
  keySets path := by rw [keySetsAt, keySetsAt, alike.keySets]
  values := alike.values

/-- Documents that are emptied one level below the greatest depth give samples that are alike. -/
theorem resembles_hollow (c : Config) (documents : List Value) :
    (samplesOf c documents).Resembles
      (samplesOf c (documents.map (Value.hollow (c.maxDepth + 1)))) := by
  have visits : List.Forall₂ Visit.Resembles (visitsOf c.maxDepth documents)
      (visitsOf c.maxDepth (documents.map (Value.hollow (c.maxDepth + 1)))) := by
    induction documents with
    | nil => exact .nil
    | cons document rest ih =>
      rw [List.map_cons, visitsOf_cons, visitsOf_cons]
      exact List.rel_append (Value.visits_hollow (Nat.zero_add _) document) ih
  apply Abreast.resembles
  rw [samplesOf, samplesOf, ofDocuments_eq, ofDocuments_eq]
  exact .foldl_record ⟨rfl, rfl, fun _ => .nil⟩ visits

end Samples

/-- Emptying what stands one level below the greatest depth does not change a prediction. -/
theorem predict_hollow {c : Config} {documents : List Value} {schema : Schema}
    (returned : predict c documents = .ok schema) :
    predict c (documents.map (Value.hollow (c.maxDepth + 1))) = .ok schema := by
  cases documents with
  | nil => cases returned
  | cons first rest =>
    have keys : Samples.writingSteps c ((first :: rest).map (Value.hollow (c.maxDepth + 1))) =
        Samples.writingSteps c (first :: rest) := by
      simp only [Samples.writingSteps, Samples.placesOf, Samples.keyStepsOf, List.flatMap_assoc,
        List.flatMap_map]
      apply List.flatMap_congr
      exact fun document _ => Value.keyStepsOf_hollow (Nat.zero_add _) document
    exact predict_of_resembles returned (keys ▸ written_of_predict returned)
      (Samples.resembles_hollow c (first :: rest))

/-! ## Replaced values -/

/-- A value with what it holds at a path replaced by another value. -/
inductive Value.Replaced : Value → Path → Value → Value → Prop where
  | here (v w : Value) : Replaced v [] w w
  | item {form : ListForm} (before : List Value) {after : List Value} {item item' w : Value}
      {path : Path} (below : Replaced item path w item') :
      Replaced (.list form (before ++ item :: after)) (.item before.length :: path) w
        (.list form (before ++ item' :: after))
  | entry {form : MapForm} (before : List (Value × Value)) {after : List (Value × Value)}
      {key item item' w : Value} {path : Path} (below : Replaced item path w item') :
      Replaced (.map form (before ++ (key, item) :: after)) (.key key.alone :: path) w
        (.map form (before ++ (key, item') :: after))

theorem Value.Replaced.resembles {v w v' : Value} {path : Path} (replaced : v.Replaced path w v')
    (below : path ≠ []) : v.Resembles v' := by
  cases replaced with
  | here => contradiction
  | item => exact .lists ..
  | entry => exact .maps ..

/-- A label takes a value by what it is on the face. -/
theorem Schema.accepts_ofLabel_of_resembles {label : String} {v v' : Value}
    (like : v.Resembles v') (accepted : (ofLabel label).accepts v = true) :
    (ofLabel label).accepts v' = true := by
  rw [Label.accepts_ofLabel] at accepted ⊢
  unfold Label.Means at accepted ⊢
  refine accepted.imp_right ?_
  rintro ⟨member, among, means⟩
  refine ⟨member, among, ?_⟩
  cases like with
  | same => exact means
  | lists | maps =>
    unfold Label.MemberMeans at means ⊢
    split at means
    · obtain ⟨text, isText, -⟩ := means
      cases isText
    · split at means
      · obtain ⟨text, -, isText⟩ := means
        cases isText
      · rename_i notString _ _
        rw [if_neg notString]
        exact means

/-- The value under a name, where one value is replaced, is what it was or the new one in its
place. -/
theorem lastUnder_replaced (name key : String) (before after : List (String × Value))
    (item item' : Value) :
    lastUnder name (before ++ (key, item') :: after) =
        lastUnder name (before ++ (key, item) :: after) ∨
      (key = name ∧ lastUnder name (before ++ (key, item) :: after) = some item ∧
        lastUnder name (before ++ (key, item') :: after) = some item') := by
  have each (item : Value) : lastUnder name (before ++ (key, item) :: after) =
      (lastUnder name after).or (if key = name then some item else lastUnder name before) := by
    simp only [lastUnder, List.reverse_append, List.reverse_cons, List.append_assoc,
      List.singleton_append, Assoc.find?_append, Assoc.find?_cons]
  rw [each, each]
  cases lastUnder name after with
  | some last => exact .inl rfl
  | none => by_cases same : key = name <;> simp [same]

/-- The entries of a map, parted at one of them. -/
theorem Value.entries?_split (form : MapForm) (before after : List (Value × Value))
    (key item : Value) : (Value.map form (before ++ (key, item) :: after)).entries? =
      some ((before.map fun entry => (entry.1.alone, entry.2)) ++
        (key.alone, item) :: after.map fun entry => (entry.1.alone, entry.2)) := by
  simp [entries?]

namespace Samples
open Schema
variable {s : Samples} {c : Config} {limit : Nat} {path below : Path} {n : PathNode}
  {v v' w : Value}

/-- Scalars are accepted by what they are on the face. -/
theorem scalarMembers_of_resembles (like : v.Resembles v')
    (accepted : ∃ member ∈ scalarMembers c n, member.accepts v = true) :
    ∃ member ∈ scalarMembers c n, member.accepts v' = true := by
  rw [accepts_scalarMembers] at accepted ⊢
  obtain ⟨⟨u, scalar, tag⟩, among⟩ := accepted
  refine ⟨⟨u, scalar, tag.trans like.tag_eq.symm⟩, ?_⟩
  intro values found text isText
  apply among values found
  have read := like.text?_eq
  rw [isText] at read
  cases like with
  | same => exact isText
  | lists | maps => cases isText

theorem listMembers_of_replaced (node : s.NodeOf path n) {form : ListForm}
    {before after : List Value} {item item' : Value}
    (kept : path ++ [.wildcard] ∈ s.paths →
      (s.schemaAt c (path ++ [.wildcard])).accepts item = true →
        (s.schemaAt c (path ++ [.wildcard])).accepts item' = true)
    (accepted : ∃ member ∈ s.listMembers c n,
      member.accepts (.list form (before ++ item :: after)) = true) :
    ∃ member ∈ s.listMembers c n,
      member.accepts (.list form (before ++ item' :: after)) = true := by
  rw [accepts_listMembers node] at accepted ⊢
  obtain ⟨filled, items, found, each⟩ := accepted
  cases found
  refine ⟨filled, _, rfl, ?_⟩
  intro element other among
  rcases List.mem_append.mp among with among | among
  · exact each element other (List.mem_append_left _ among)
  · rcases List.mem_cons.mp among with rfl | among
    · exact kept element (each element item (by simp))
    · exact each element other (by simp [among])

theorem mapMembers_of_replaced (closed : s.Closed limit) (node : s.NodeOf path n)
    (noRecord : (PathTree.ofSamples s).record? c n = none) {form : MapForm}
    {before after : List (Value × Value)} {key item item' : Value}
    (kept : path ++ [.key key.alone] ∈ s.paths →
      (s.schemaAt c (path ++ [.key key.alone])).accepts item = true →
        (s.schemaAt c (path ++ [.key key.alone])).accepts item' = true)
    (accepted : ∃ member ∈ s.mapMembers c path n,
      member.accepts (.map form (before ++ (key, item) :: after)) = true) :
    ∃ member ∈ s.mapMembers c path n,
      member.accepts (.map form (before ++ (key, item') :: after)) = true := by
  rw [accepts_mapMembers noRecord] at accepted ⊢
  rw [Value.entries?_split] at accepted ⊢
  generalize (before.map fun entry => (entry.1.alone, entry.2)) = first,
    (after.map fun entry => (entry.1.alone, entry.2)) = last at accepted ⊢
  obtain ⟨filled, _, found, fields, known⟩ := accepted
  cases found
  refine ⟨filled, _, rfl, ?_, by simpa [Assoc.keys] using known⟩
  intro name isName
  obtain ⟨accepts, lacks⟩ := fields name isName
  rcases lastUnder_replaced name key.alone first last item item' with same | ⟨rfl, was, now⟩
  · rw [same]
    exact ⟨accepts, lacks⟩
  · rw [now]
    refine ⟨?_, fun absent => by cases absent⟩
    rintro _ ⟨⟩
    exact kept ((node.mem_names closed).mp isName) (accepts item was)

theorem record_of_replaced (shallow : path.length ≤ c.maxDepth) {record : Structure}
    (isRecord : (PathTree.ofSamples s).record? c n = some record) {form : MapForm}
    {before after : List (Value × Value)} {key item item' : Value} (like : item.Resembles item')
    (accepted : ∃ member ∈ s.mapMembers c path n,
      member.accepts (.map form (before ++ (key, item) :: after)) = true) :
    ∃ member ∈ s.mapMembers c path n,
      member.accepts (.map form (before ++ (key, item') :: after)) = true := by
  obtain ⟨member, among, accepted⟩ := accepted
  refine ⟨member, among, ?_⟩
  obtain ⟨-, ⟨noRecord, -⟩ | ⟨pattern, stem, label, -, rfl⟩⟩ :=
    (mem_mapMembers_iff shallow).mp among
  · cases isRecord.symm.trans noRecord
  · rw [accepts_record, Value.entries?_split] at accepted ⊢
    obtain ⟨_, found, each⟩ := accepted
    cases found
    refine ⟨_, rfl, ?_⟩
    intro entry isEntry
    rcases List.mem_append.mp isEntry with isEntry | isEntry
    · exact each entry (List.mem_append_left _ isEntry)
    · rcases List.mem_cons.mp isEntry with rfl | isEntry
      · obtain ⟨admitted, accepts⟩ := each (key.alone, item) (by simp)
        exact ⟨admitted, accepts_ofLabel_of_resembles like accepts⟩
      · exact each entry (by simp [isEntry])

private theorem noRecord_concat {step : Segment}
    (noRecord : ¬ s.IsRecord c (path ++ Path.flat (step :: below).dropLast)) (filled : below ≠ []) :
    ¬ s.IsRecord c (path ++ [step.flat] ++ Path.flat below.dropLast) := by
  rw [List.dropLast_cons_of_ne_nil filled, Path.flat_cons, List.append_cons] at noRecord
  exact noRecord

/-- Replacing what stands one level below the greatest depth keeps a value accepted, unless it
stands under a key of a record. -/
theorem accepts_replaced (closed : s.Closed c.maxDepth) (there : path ∈ s.paths)
    (replaced : v.Replaced below w v') (depth : path.length + below.length = c.maxDepth + 1)
    (noRecord : below ≠ [] → ¬ s.IsRecord c (path ++ Path.flat below.dropLast))
    (accepted : (s.schemaAt c path).accepts v = true) :
    (s.schemaAt c path).accepts v' = true := by
  induction replaced generalizing path with
  | here v w =>
    rw [List.length_nil] at depth
    rw [schemaAt_of_deep (by omega)]
    rfl
  | @item form before after item item' w below replaced ih =>
    have shallow : path.length ≤ c.maxDepth := by
      rw [List.length_cons] at depth
      omega
    have noRecordBelow := noRecord_concat (noRecord (List.cons_ne_nil _ _))
    have kept (element : path ++ [Segment.wildcard] ∈ s.paths) :
        (s.schemaAt c (path ++ [Segment.wildcard])).accepts item = true →
          (s.schemaAt c (path ++ [Segment.wildcard])).accepts item' = true :=
      ih element (Path.length_concat_add _ depth) noRecordBelow
    obtain ⟨n, node⟩ := closed.exists_node there
    rw [accepts_schemaAt closed node there shallow] at accepted ⊢
    rcases accepted with ⟨-, isNull⟩ | scalar | list | map
    · cases isNull
    · exact .inr (.inl (scalarMembers_of_resembles (.lists ..) scalar))
    · exact .inr (.inr (.inl (listMembers_of_replaced node kept list)))
    · obtain ⟨-, entries, found⟩ := entries_of_mapMembers shallow map
      cases found
  | @entry form before after key item item' w below replaced ih =>
    have shallow : path.length ≤ c.maxDepth := by
      rw [List.length_cons] at depth
      omega
    have noRecordBelow := noRecord_concat (noRecord (List.cons_ne_nil _ _))
    have kept (child : path ++ [Segment.key key.alone] ∈ s.paths) :
        (s.schemaAt c (path ++ [Segment.key key.alone])).accepts item = true →
          (s.schemaAt c (path ++ [Segment.key key.alone])).accepts item' = true :=
      ih child (Path.length_concat_add _ depth) noRecordBelow
    obtain ⟨n, node⟩ := closed.exists_node there
    rw [accepts_schemaAt closed node there shallow] at accepted ⊢
    rcases accepted with ⟨-, isNull⟩ | scalar | list | map
    · cases isNull
    · exact .inr (.inl (scalarMembers_of_resembles (.maps ..) scalar))
    · obtain ⟨-, _, found, -⟩ := (accepts_listMembers node).mp list
      cases found
    · refine .inr (.inr (.inr ?_))
      cases isRecord : (PathTree.ofSamples s).record? c n with
      | none => exact mapMembers_of_replaced closed node isRecord kept map
      | some record =>
        -- The values of a record are told by their tags, so only a whole one may not be replaced.
        have inside : below ≠ [] := by
          rintro rfl
          apply noRecord (List.cons_ne_nil _ _)
          simpa using ⟨n, record, node.found, isRecord⟩
        exact record_of_replaced shallow isRecord (replaced.resembles inside) map

/-- The first path to a position leads there, and is as long. -/
theorem length_firstPath {documents : List Value} {bucket : Path × Bucket}
    (among : bucket ∈ (samplesOf c documents).buckets) :
    bucket.2.firstPath.length ≤ c.maxDepth + 1 := by
  have filed : (samplesOf c documents).FiledFrom c.maxDepth (placesOf documents) :=
    filedFrom_ofDocuments c.maxDepth documents
  have first := filed.firstPath bucket.1
  rw [Assoc.find?_of_nodup filed.bucketsDistinct among, Option.map_some] at first
  obtain ⟨place, filedThere, same⟩ := List.mem_map.mp (List.mem_of_mem_head? first.symm)
  obtain ⟨-, counts⟩ := of_decide_eq_true (List.mem_filter.mp filedThere).2
  rw [← same]
  omega

end Samples

/-- What stands more than one level below the greatest depth reaches nothing: a prediction stays as
it is where documents are emptied from there on, what it accepts stays accepted where a value there
is replaced by any other, unless under a key of a record, and neither paths nor schemas go
further. -/
theorem nothing_below_depth {c : Config} {documents : List Value} {schema : Schema}
    (returned : predict c documents = .ok schema) :
    predict c (documents.map (Value.hollow (c.maxDepth + 1))) = .ok schema ∧
    (∀ v path w v', v.Replaced path w v' → path.length = c.maxDepth + 1 →
      ¬ (samplesOf c documents).IsRecord c (Path.flat path.dropLast) →
      schema.check v = .ok [] → schema.check v' = .ok []) ∧
    (∀ path ∈ (samplesOf c documents).paths, path.length ≤ c.maxDepth + 1) ∧
    (∀ bucket ∈ (samplesOf c documents).buckets, bucket.2.firstPath.length ≤ c.maxDepth + 1) ∧
    schema.levels ≤ c.maxDepth + 1 := by
  obtain ⟨filled, rfl⟩ := predict_eq returned
  have closed : (samplesOf c documents).Closed c.maxDepth := Samples.closed_ofDocuments filled
  refine ⟨predict_hollow returned, ?_, ?_, ?_, ?_⟩
  · intro v path w v' replaced deep noRecord
    rw [Schema.check_eq_ok_nil_iff (Samples.readable_schemaAt _ _ _),
      Schema.check_eq_ok_nil_iff (Samples.readable_schemaAt _ _ _)]
    apply Samples.accepts_replaced closed closed.root replaced
    · rw [List.length_nil, deep, Nat.zero_add]
    · intro _
      exact noRecord
  · exact (Samples.filedFrom_ofDocuments c.maxDepth documents).nothingBelow
  · exact fun _ => Samples.length_firstPath
  · exact Samples.levels_schemaAt closed closed.root (Nat.zero_add _)

/-- With the depth of one, a list and a map in a list under a key are cut off. -/
theorem nothing_below_one :
    let c : Config := { maxDepth := 1 }
    let inside (items : List Value) : Value := .map .plain [(.text "a", .list .list items)]
    let deep : Value := inside [.list .list [.null], .map .plain [(.text "b", .null)]]
    let schema : Schema := .object [("a", false, .list .any)] true
    predict c [deep] = .ok schema ∧
      predict c [inside [.list .list [], .map .plain []]] = .ok schema ∧
      schema.check (inside [.null]) = .ok [] ∧ schema.check (inside [deep]) = .ok [] ∧
      schema.levels ≤ 2 := by
  -- The run is evaluated while its document is still written out.
  have returned : predict { maxDepth := 1 } [.map .plain [(.text "a",
      .list .list [.list .list [.null], .map .plain [(.text "b", .null)]])]] =
      .ok (.object [("a", false, .list .any)] true) := by
    rw [predict_of_written rfl]
    rfl
  intro c inside deep schema
  have replaced : (inside [.null]).Replaced [.key "a", .item 0] deep (inside [deep]) :=
    .entry [] (.item [] (.here _ _))
  obtain ⟨hollow, kept, -, -, levels⟩ := nothing_below_depth returned
  refine ⟨returned, hollow, rfl, ?_, levels⟩
  exact kept _ _ _ _ replaced rfl (by decide +kernel) rfl

end SchemaInference
