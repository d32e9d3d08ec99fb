import SchemaInference.Proofs.PositionAcceptance
import SchemaInference.Proofs.Prediction
import SchemaInference.Proofs.Records

/-! Self-acceptance: a prediction finds nothing wrong with the documents that it was made from,
apart from one kind of key. The rule of a record with a stem admits no line feed after the stem, so
a key with one is refused even where it was sampled, and a union around such a record then has no
member that fits. -/
namespace SchemaInference

/-- The step of a path that a step of a route is. -/
def RouteStep.segment : RouteStep → Segment
  | .key name => .key name
  | .item position => .index (toString position)

/-- The concrete path that a route is. -/
def Route.concrete (route : Route) : Path := route.map RouteStep.segment

@[simp] theorem Route.concrete_nil : concrete [] = [] := rfl

@[simp] theorem Route.concrete_cons (step : RouteStep) (route : Route) :
    concrete (step :: route) = step.segment :: route.concrete := rfl

namespace Samples

/-- The maps at a path make a record of keys that share a stem. -/
def IsPrefixed (s : Samples) (c : Config) (path : Path) : Prop :=
  ∃ n stem label, (PathTree.ofSamples s).node? path = some n ∧
    (PathTree.ofSamples s).record? c n = some (.record {} .prefixed stem label)

/-- A value at a path holds a map where maps make a record of keys that share a stem, and one of its
keys has a line feed after the stem. -/
structure Breaks (s : Samples) (c : Config) (path : Path) (v : Value) (below : Path)
    (key : String) : Prop where
  isPrefixed : s.IsPrefixed c (path ++ below).flat
  breaks : KeyPattern.breaks key = true
  held : ∃ form entries, v.Holds below (.map form entries) ∧
    key ∈ entries.map fun entry => entry.1.alone

/-- What may be found wrong with a value at a path, so many steps below it: a key that breaks, or a
union around one. -/
inductive Excused (s : Samples) (c : Config) (path : Path) (v : Value) :
    Route → IssueCause → Prop where
  | misnamed {steps : Route} {rule : KeyRule} (below : Path) (key : String)
      (place : steps.concrete = below ++ [.key key]) (breaks : s.Breaks c path v below key) :
      Excused s c path v steps (.misnamed key (some KeyPattern.prefixed.name) rule)
  | mismatch {steps : Route} {members : List Schema} {w : Value} {below : Path} {key : String}
      (place : v.Holds steps.concrete w)
      (breaks : s.Breaks c (path ++ steps.concrete) w below key) :
      Excused s c path v steps (.mismatch (.union members) w.kind)

/-- A schema finds nothing wrong with a value at a path but what may be found. -/
def Fits (s : Samples) (c : Config) (path : Path) (v : Value) (schema : Schema) : Prop :=
  ∀ route, ∀ issue ∈ schema.issuesAt route v,
    ∃ steps, issue.route = route ++ steps ∧ s.Excused c path v steps issue.cause

variable {s : Samples} {c : Config} {path : Path} {n : PathNode} {v w : Value}

theorem Excused.exists_breaks {steps : Route} {cause : IssueCause}
    (excused : s.Excused c path v steps cause) : ∃ below key, s.Breaks c path v below key := by
  cases excused with
  | misnamed below key _ breaks => exact ⟨_, _, breaks⟩
  | mismatch place breaks =>
    obtain ⟨isPrefixed, broken, form, entries, holds, among⟩ := breaks
    rw [List.append_assoc] at isPrefixed
    exact ⟨_, _, isPrefixed, broken, form, entries, place.trans holds, among⟩

/-- What may be found in a part of a value may be found in the value. -/
theorem Excused.step {step : RouteStep} {steps : Route} {cause : IssueCause}
    (part : v.Holds [step.segment] w)
    (excused : s.Excused c (path ++ [step.segment]) w steps cause) :
    s.Excused c path v (step :: steps) cause := by
  cases excused with
  | misnamed below key place breaks =>
    obtain ⟨isPrefixed, broken, form, entries, holds, among⟩ := breaks
    rw [List.append_assoc] at isPrefixed
    exact .misnamed (step.segment :: below) key (by simp [place])
      ⟨isPrefixed, broken, form, entries, part.trans holds, among⟩
  | mismatch place breaks =>
    rw [List.append_assoc] at breaks
    exact .mismatch (part.trans place) breaks

theorem fits_of_accepts {schema : Schema} (accepted : schema.accepts v = true) :
    s.Fits c path v schema := by
  intro route issue member
  rw [(Schema.issuesAt_eq_nil_iff route).mpr accepted] at member
  cases member

/-- The issues of a part become those of the whole. -/
theorem Fits.step {schema : Schema} {step : RouteStep}
    (fits : s.Fits c (path ++ [step.segment]) w schema) (part : v.Holds [step.segment] w)
    {route : Route} {issue : Issue}
    (member : issue ∈ schema.issuesAt (route ++ [step]) w) :
    ∃ steps, issue.route = route ++ steps ∧ s.Excused c path v steps issue.cause := by
  obtain ⟨steps, place, excused⟩ := fits _ issue member
  exact ⟨step :: steps, by simp [place], excused.step part⟩

/-- One alternative that fits is enough. A union around it has a mismatch of its own where the
alternative has issues, and never otherwise. -/
theorem Fits.ofAlternatives {members : List Schema} {member : Schema} (among : member ∈ members)
    (fits : s.Fits c path v member) : s.Fits c path v (.ofAlternatives members) := by
  match members with
  | [only] =>
    obtain rfl := List.mem_singleton.mp among
    exact fits
  | first :: second :: rest =>
    intro route issue found
    have union : Schema.ofAlternatives (first :: second :: rest) =
        .union (first :: second :: rest) := rfl
    rw [union, Schema.issuesAt_union] at found
    split at found
    · cases found
    · rename_i refused
      cases List.mem_singleton.mp found
      refine ⟨[], (List.append_nil route).symm, ?_⟩
      have some : member.issuesAt route v ≠ [] := fun none =>
        refused (List.any_eq_true.mpr ⟨member, among, List.isEmpty_iff.mpr none⟩)
      obtain ⟨issue, issueMember⟩ := List.exists_mem_of_ne_nil _ some
      obtain ⟨steps, -, excused⟩ := fits route issue issueMember
      obtain ⟨below, key, breaks⟩ := excused.exists_breaks
      exact .mismatch (.here v) (by simpa using breaks)

theorem Fits.besideNull {nullable : Bool} {members : List Schema} {member : Schema}
    (among : member ∈ members) (fits : s.Fits c path v member) :
    s.Fits c path v (Schema.besideNull nullable members) := by
  have whole := Fits.ofAlternatives among fits
  unfold Schema.besideNull
  split
  · cases among
  · cases nullable with
    | false => exact whole
    | true =>
      intro route issue found
      simp only [if_true, Schema.issuesAt_nullable] at found
      split at found
      · cases found
      · exact whole route issue found

/-! ## Lists and maps -/

theorem fits_list {form : ListForm} {items : List Value} {element : Schema}
    (each : ∀ i item, items[i]? = some item → s.Fits c (path ++ [.item i]) item element) :
    s.Fits c path (.list form items) (.list element) := by
  intro route issue found
  simp only [Schema.issuesAt_list, Value.items?, List.mem_flatMap, Prod.exists,
    List.mem_zipIdx_iff_getElem?] at found
  obtain ⟨item, i, at_, found⟩ := found
  have part : (Value.list form items).Holds [RouteStep.segment (.item i)] item :=
    .item at_ (.here item)
  exact Fits.step (each i item at_) part found

/-- A map fits an object that knows all its keys, and asks for no others. -/
theorem fits_object {form : MapForm} {entries : List (Value × Value)}
    {shape : List (String × Bool × Schema)} {strict : Bool}
    (each : ∀ field ∈ shape, ∀ key item, (key, item) ∈ entries → key.alone = field.1 →
      s.Fits c (path ++ [.key field.1]) item field.2.2)
    (required : ∀ field ∈ shape, field.2.1 = false →
      field.1 ∈ entries.map fun entry => entry.1.alone)
    (known : ∀ entry ∈ entries, entry.1.alone ∈ Assoc.keys shape) :
    s.Fits c path (.map form entries) (.object shape strict) := by
  intro route issue found
  let present := entries.map fun entry => (entry.1.alone, entry.2)
  have noStrangers : Schema.strangers route shape (Assoc.ofPairs present) = [] := by
    rw [Schema.strangers_eq_nil_iff]
    intro name member
    rw [Assoc.mem_keys_ofPairs, Assoc.keys, List.map_map, List.mem_map] at member
    obtain ⟨entry, entryMember, rfl⟩ := member
    exact known entry entryMember
  simp only [Schema.issuesAt_object, Value.entries?] at found
  rw [noStrangers, ite_self, List.append_nil, List.mem_flatMap] at found
  obtain ⟨⟨name, optional, schema⟩, member, found⟩ := found
  rw [Schema.fieldIssue, Assoc.find?_ofPairs] at found
  split at found
  · rename_i found_
    obtain ⟨⟨key, item⟩, entryMember, same⟩ :=
      List.mem_map.mp (List.mem_reverse.mp (Assoc.mem_of_find? found_))
    cases same
    have part : (Value.map form entries).Holds [RouteStep.segment (.key key.alone)] item :=
      .entry entryMember (.here item)
    exact Fits.step (each _ member key item entryMember rfl) part found
  · rename_i missing
    cases optional with
    | true => cases found
    | false =>
      rw [Assoc.find?_eq_none_iff] at missing
      exact absurd (required _ member rfl) (by simpa [Assoc.keys, present] using missing)

/-- Keys that a record refuses are keys that break, in a record of keys that share a stem. -/
theorem breaks_of_refused {limit : Nat} (closed : s.Closed limit) (node : s.NodeOf path n)
    {pattern : KeyPattern} {stem : Option String} {label : String}
    (found : (PathTree.ofSamples s).record? c n = some (.record {} pattern stem label))
    {name : String} (member : name ∈ n.names) {rule : KeyRule}
    (given : pattern.rule? stem = some rule) (refused : rule.admits name = false) :
    pattern = .prefixed ∧ KeyPattern.breaks name = true := by
  obtain ⟨_, patternFound, -, -, -, same⟩ := (node.record?_eq_some_iff closed).mp found
  cases same
  obtain ⟨-, keys, strong⟩ := (node.recordPattern?_eq_some_iff closed).mp patternFound
  have proper : pattern ≠ .mixed := by rcases strong with rfl | rfl <;> decide
  obtain ⟨own, isRule, admits⟩ := KeyPattern.exists_rule_of_ofKeys keys proper
  obtain rfl := Option.some.inj (isRule.symm.trans given)
  have breaks : ¬ (pattern = .prefixed → KeyPattern.breaks name = false) := by
    rw [← admits name member, refused]
    decide
  simpa using breaks

/-- A map that was sampled fits the record that the maps there make. -/
theorem fits_record {limit : Nat} (closed : s.Closed limit) (node : s.NodeOf path.flat n)
    {pattern : KeyPattern} {stem : Option String} {label : String}
    (found : (PathTree.ofSamples s).record? c n = some (.record {} pattern stem label))
    {form : MapForm} {entries : List (Value × Value)}
    (known : ∀ entry ∈ entries, entry.1.alone ∈ n.names)
    (seen : ∀ entry ∈ entries, entry.2 ∈ s.valuesUnder path.flat n.names) :
    s.Fits c path (.map form entries)
      (.record (some pattern.name) (pattern.rule? stem) (.ofLabel label)) := by
  have accepted (entry : Value × Value) (member : entry ∈ entries) (route : Route) :
      (Schema.ofLabel label).issuesAt route entry.2 = [] := by
    obtain ⟨_, -, -, -, -, same⟩ := (node.record?_eq_some_iff closed).mp found
    cases same
    exact (Schema.issuesAt_eq_nil_iff route).mpr (accepts_labelUnder (seen entry member))
  intro route issue issueFound
  simp only [Schema.issuesAt_record, Value.entries?, List.mem_flatMap, List.mem_map] at issueFound
  obtain ⟨_, ⟨entry, member, rfl⟩, issueFound⟩ := issueFound
  unfold Schema.entryIssues at issueFound
  split at issueFound
  · rename_i rule given
    split at issueFound
    · rw [accepted entry member] at issueFound
      cases issueFound
    · rename_i refused
      obtain ⟨rfl, broken⟩ := breaks_of_refused closed node found (known entry member) given
        (by simpa using refused)
      cases List.mem_singleton.mp issueFound
      have isPrefixed : s.IsPrefixed c (path ++ []).flat := by
        rw [List.append_nil]
        exact ⟨n, _, _, node.found, found⟩
      exact ⟨[.key entry.1.alone], rfl, .misnamed [] _ rfl ⟨isPrefixed, broken, form, entries,
        .here _, List.mem_map.mpr ⟨entry, member, rfl⟩⟩⟩
  · rw [accepted entry member] at issueFound
    cases issueFound

/-! ## Samples -/

variable {documents : List Value} {document : Value}

/-- What stands where nothing but leaves was seen is one of the values seen there. -/
theorem mem_valuesAt_of_isLeaf (member : document ∈ documents) (holds : document.Holds path v)
    (bounded : path.length ≤ c.maxDepth + 1) (leaf : (samplesOf c documents).IsLeaf path.flat) :
    v ∈ (samplesOf c documents).valuesAt path.flat := by
  refine (seen_of_holds member holds bounded).resolve_right ?_
  rintro ⟨form, entries, rfl, keys⟩
  rw [← samplesOf, leaf.keySets] at keys
  cases keys

/-- A map in a document fits what stands for the maps of its position, if what it holds fits
below. -/
theorem fits_mapMembers (closed : (samplesOf c documents).Closed c.maxDepth)
    (member : document ∈ documents) {form : MapForm} {entries : List (Value × Value)}
    (holds : document.Holds path (.map form entries)) (shallow : path.length ≤ c.maxDepth)
    (node : (samplesOf c documents).NodeOf path.flat n)
    (below : ∀ entry ∈ entries,
      (samplesOf c documents).Fits c (path ++ [.key entry.1.alone]) entry.2
        ((samplesOf c documents).schemaAt c (Path.flat (path ++ [.key entry.1.alone])))) :
    ∃ member ∈ (samplesOf c documents).mapMembers c path.flat n,
      (samplesOf c documents).Fits c path (.map form entries) member := by
  have keySet : entries.map (fun entry => entry.1.alone) ∈ n.keySets := by
    rw [node.keySets]
    exact mem_keySetsAt_ofDocuments.mpr
      ⟨document, member, path, form, entries, holds, rfl, shallow, rfl⟩
  have known (entry : Value × Value) (among : entry ∈ entries) : entry.1.alone ∈ n.names := by
    rw [node.mem_names closed]
    exact closed.keys _ _ (node.keySets ▸ keySet) _ (List.mem_map.mpr ⟨entry, among, rfl⟩)
  cases found : (PathTree.ofSamples (samplesOf c documents)).record? c n with
  | none =>
    rw [mapMembers_of_object (List.ne_nil_of_mem keySet) found]
    refine ⟨_, List.mem_singleton_self _, fits_object ?_ ?_ ?_⟩
    · simp only [fieldsAt, List.forall_mem_map]
      rintro name - key item among rfl
      simpa using below (key, item) among
    · simp only [fieldsAt, List.forall_mem_map]
      intro name _ required
      have all := List.any_eq_false.mp required _ keySet
      simpa using all
    · intro entry among
      simpa [fieldsAt, Assoc.keys] using known entry among
  | some record =>
    obtain ⟨pattern, stem, label, rfl⟩ := PathTree.record?_eq_some found
    rw [mapMembers_of_record (by rwa [Path.length_flat]) (List.ne_nil_of_mem keySet) found]
    refine ⟨_, List.mem_singleton_self _, ?_⟩
    refine fits_record closed node found known fun entry among => ?_
    obtain ⟨_, -, leaves, -⟩ := (node.record?_eq_some_iff closed).mp found
    have part : (Value.map form entries).Holds [.key entry.1.alone] entry.2 :=
      .entry among (.here _)
    have leaf := leaves _ (known entry among)
    refine List.mem_flatMap.mpr ⟨_, known entry among, ?_⟩
    have same : Path.flat (path ++ [Segment.key entry.1.alone]) =
        path.flat ++ [Segment.key entry.1.alone] := by
      simp
    rw [← same] at leaf ⊢
    exact mem_valuesAt_of_isLeaf member (holds.trans part) (by simpa using shallow) leaf

/-- A scalar in a document is accepted where it stands. -/
theorem accepts_leaf (closed : (samplesOf c documents).Closed c.maxDepth)
    (there : path ∈ (samplesOf c documents).paths) (shallow : path.length ≤ c.maxDepth)
    (seen : v ∈ (samplesOf c documents).valuesAt path) (notList : v.isList = false) :
    ((samplesOf c documents).schemaAt c path).accepts v = true := by
  obtain ⟨n, node⟩ := closed.exists_node there
  rw [← node.values] at seen
  refine (accepts_schemaAt closed node there shallow).mpr ?_
  by_cases isNull : v = .null
  · exact .inl ⟨List.any_eq_true.mpr ⟨v, seen, isNull ▸ rfl⟩, isNull⟩
  · have notNull : v.isNull = false := by cases v <;> first | rfl | contradiction
    have scalar : v ∈ n.scalars := List.mem_filter.mpr ⟨seen, by simp [notNull, notList]⟩
    refine .inr (.inl (accepts_scalarMembers.mpr ⟨⟨v, scalar, rfl⟩, ?_⟩))
    rintro values found text rfl
    rw [(enumOf?_eq_some found).1, mem_ascending]
    exact List.mem_filterMap.mpr ⟨_, seen, rfl⟩

/-- A list in a document fits what stands for the lists of its position, if its items fit below. -/
theorem fits_listMembers (closed : (samplesOf c documents).Closed c.maxDepth)
    (member : document ∈ documents) {form : ListForm} {items : List Value}
    (holds : document.Holds path (.list form items)) (shallow : path.length ≤ c.maxDepth)
    (node : (samplesOf c documents).NodeOf path.flat n)
    (below : ∀ i item, items[i]? = some item → (samplesOf c documents).Fits c (path ++ [.item i])
      item ((samplesOf c documents).schemaAt c (path.flat ++ [.wildcard]))) :
    ∃ member ∈ (samplesOf c documents).listMembers c n,
      (samplesOf c documents).Fits c path (.list form items) member := by
  have seen : Value.list form items ∈ (samplesOf c documents).valuesAt path.flat :=
    mem_valuesAt_ofDocuments.mpr ⟨document, member, path, holds, rfl, .inl ⟨shallow, rfl⟩⟩
  have isList : Value.list form items ∈ n.lists :=
    List.mem_filter.mpr ⟨node.values ▸ seen, rfl⟩
  rw [listMembers_of_filled (List.ne_nil_of_mem isList)]
  refine ⟨_, List.mem_singleton_self _, fits_list fun i item found => ?_⟩
  have element : path.flat ++ [Segment.wildcard] ∈ (samplesOf c documents).paths :=
    closed.items _ _ items (by rwa [Path.length_flat]) seen rfl
      (List.ne_nil_of_mem (List.mem_of_getElem? found))
  rw [node.element?, if_pos element]
  exact below i item found

/-- What a document holds fits the schema of its position. -/
theorem fits_schemaAt (closed : (samplesOf c documents).Closed c.maxDepth)
    (member : document ∈ documents) (holds : document.Holds path v)
    (bounded : path.length ≤ c.maxDepth + 1) :
    (samplesOf c documents).Fits c path v ((samplesOf c documents).schemaAt c path.flat) := by
  -- Below the greatest depth anything is accepted, so only positions that are entered count.
  have entered {path : Path} {v : Value} (holds : document.Holds path v)
      (bounded : path.length ≤ c.maxDepth + 1)
      (fits : path.length ≤ c.maxDepth → path.flat ∈ (samplesOf c documents).paths →
        (samplesOf c documents).Fits c path v ((samplesOf c documents).schemaAt c path.flat)) :
      (samplesOf c documents).Fits c path v ((samplesOf c documents).schemaAt c path.flat) := by
    by_cases shallow : path.length ≤ c.maxDepth
    · exact fits shallow
        (mem_paths_ofDocuments.mpr ⟨document, member, path, v, holds, bounded, rfl⟩)
    · rw [schemaAt_of_deep (by rw [Path.length_flat]; omega)]
      exact fits_of_accepts rfl
  induction v using Value.ind generalizing path with
  | leaf v notList notMap =>
    refine entered holds bounded fun shallow there => fits_of_accepts ?_
    have seen := mem_valuesAt_ofDocuments.mpr
      ⟨document, member, path, holds, rfl, .inl ⟨shallow, notMap⟩⟩
    exact accepts_leaf closed there (by rwa [Path.length_flat]) seen notList
  | list form items ih =>
    refine entered holds bounded fun shallow there => ?_
    obtain ⟨n, node⟩ := closed.exists_node there
    obtain ⟨alternative, among, fits⟩ := fits_listMembers closed member holds shallow node
      fun i item found => by
        have part : (Value.list form items).Holds [.item i] item := .item found (.here item)
        simpa [Segment.item] using
          ih item (List.mem_of_getElem? found) (holds.trans part) (by simpa using shallow)
    rw [schemaAt_eq closed node there (by rwa [Path.length_flat])]
    exact fits.besideNull (List.mem_append_left _ (List.mem_append_right _ among))
  | map form entries ih =>
    refine entered holds bounded fun shallow there => ?_
    obtain ⟨n, node⟩ := closed.exists_node there
    obtain ⟨alternative, among, fits⟩ := fits_mapMembers closed member holds shallow node
      fun entry entryMember => by
        have part : (Value.map form entries).Holds [.key entry.1.alone] entry.2 :=
          .entry entryMember (.here _)
        exact ih entry entryMember (holds.trans part) (by simpa using shallow)
    rw [schemaAt_eq closed node there (by rwa [Path.length_flat])]
    exact fits.besideNull (List.mem_append_right _ among)

end Samples

/-- Self-acceptance: the check of a document against the prediction that it was a sample of ends,
and it finds nothing wrong but keys with a line feed after the stem of their record, and unions
around such keys. Where no key in it has a line feed at all, the document is valid. -/
theorem check_of_sample {c : Config} {documents : List Value} {schema : Schema} {document : Value}
    (returned : predict c documents = .ok schema) (member : document ∈ documents) :
    ∃ issues, schema.check document = .ok issues ∧
      (∀ issue ∈ issues,
        (samplesOf c documents).Excused c [] document issue.route issue.cause) ∧
      ((∀ path form entries, document.Holds path (.map form entries) →
        ∀ entry ∈ entries, '\n' ∉ entry.1.alone.toList) → issues = []) := by
  obtain ⟨filled, rfl⟩ := predict_eq returned
  have closed : (samplesOf c documents).Closed c.maxDepth :=
    Samples.closed_ofDocuments filled
  have excused (issue : Issue)
      (found : issue ∈ ((samplesOf c documents).schemaAt c []).issues document) :
      (samplesOf c documents).Excused c [] document issue.route issue.cause := by
    obtain ⟨steps, place, excused⟩ :=
      Samples.fits_schemaAt closed member (.here document) (by simp) [] issue found
    rw [place]
    exact excused
  refine ⟨_, Schema.check_eq (Samples.readable_schemaAt _ _ _) document, excused, fun noFeed => ?_⟩
  refine List.eq_nil_iff_forall_not_mem.mpr fun issue found => ?_
  obtain ⟨below, key, -, broken, form, entries, holds, among⟩ := (excused issue found).exists_breaks
  obtain ⟨entry, entryMember, rfl⟩ := List.mem_map.mp among
  have feed : '\n' ∈ entry.1.alone.toList :=
    (List.dropWhile_sublist _).subset (by simpa [KeyPattern.breaks] using broken)
  exact noFeed below form entries holds entry entryMember feed

/-- A number beside a record, none of whose keys has a line feed. -/
theorem check_of_number_or_record :
    let document : Value :=
      .map .plain [(.text "a.b", .number (.int 1)), (.text "a.c", .number (.int 2))]
    ∃ schema, predict default [.number (.int 5), document] = .ok schema ∧
      schema.check document = .ok [] := by
  dsimp only
  have returned : predict default [.number (.int 5),
      .map .plain [(.text "a.b", .number (.int 1)), (.text "a.c", .number (.int 2))]] =
    .ok (.union [.scalar "number",
      .record (some "prefixed") (some (KeyPattern.stemRule "a")) (.scalar "number")]) := by
    rw [predict_of_written rfl]
    rfl
  refine ⟨_, returned, ?_⟩
  obtain ⟨issues, checked, -, valid⟩ :=
    check_of_sample returned (List.mem_cons_of_mem _ List.mem_cons_self)
  rw [checked, valid]
  intro path form entries holds entry member
  cases path with
  | nil =>
    cases holds.eq_of_nil
    revert entry
    decide
  | cons step below =>
    obtain ⟨_, _, _, _, isList, -⟩ | ⟨_, found, key, item, isMap, among, -, holds⟩ := holds.cons_inv
    · cases isList
    · cases isMap
      have number : ∃ n, item = .number (.int n) := by
        simp only [List.mem_cons, Prod.mk.injEq, List.not_mem_nil, or_false] at among
        rcases among with ⟨-, rfl⟩ | ⟨-, rfl⟩ <;> exact ⟨_, rfl⟩
      obtain ⟨n, rfl⟩ := number
      cases holds

/-- A union around a record hides which key is at fault: what is found wrong with this document is
no key, though its only fault is one. -/
theorem union_hides_broken_key :
    let document : Value :=
      .map .plain [(.text "a_b", .number (.int 1)), (.text "a_c\n", .number (.int 2))]
    let record : Schema :=
      .record (some "prefixed") (some (KeyPattern.stemRule "a")) (.scalar "number")
    let schema : Schema := .union [.scalar "number", record]
    predict default [.number (.int 5), document] = .ok schema ∧
      ∃ issues, schema.check document = .ok issues ∧
        issues.map (fun issue => issue.cause.message) =
          ["Expected number | Record<prefixed, number>, received object"] := by
  dsimp only
  refine ⟨by rw [predict_of_written rfl]; rfl, ?_⟩
  have messages : ((Schema.check (.union [.scalar "number",
        .record (some "prefixed") (some (KeyPattern.stemRule "a")) (.scalar "number")])
      (.map .plain [(.text "a_b", .number (.int 1)),
        (.text "a_c\n", .number (.int 2))])).toOption.map
          fun issues => issues.map fun issue => issue.cause.message) =
        some ["Expected number | Record<prefixed, number>, received object"] := by
    decide +kernel
  obtain ⟨issues, checked, message⟩ := Option.map_eq_some_iff.mp messages
  refine ⟨issues, ?_, message⟩
  generalize Schema.check _ _ = outcome at checked ⊢
  cases outcome <;> cases checked
  rfl

end SchemaInference
