import SchemaInference.Proofs.IssueParts
import SchemaInference.Proofs.Precision
import SchemaInference.Proofs.SelfAcceptance

/-! Where issues lie. A check goes down a value and its schema side by side; what it finds lies at
the places that it comes to, each issue at a place of its own, and no issue lies below another. A
union is asked as a whole: it has one issue at its place or none. -/
namespace SchemaInference

namespace Schema

/-- A check of a value by a schema comes to a node of the schema with a part of the value, and what
is found there counts. Members of a union are asked too, but what they find does not count. -/
inductive Reaches : Schema → Value → Route → Schema → Value → Prop where
  | here (s : Schema) (v : Value) : Reaches s v [] s v
  | nullable {inner node : Schema} {v w : Value} {route : Route} (notNull : v.isNull = false)
      (below : Reaches inner v route node w) : Reaches (.nullable inner) v route node w
  | item {element node : Schema} {v item w : Value} {items : List Value} {i : Nat} {route : Route}
      (isList : v.items? = some items) (found : items[i]? = some item)
      (below : Reaches element item route node w) :
      Reaches (.list element) v (.item i :: route) node w
  | entry {pattern : Option String} {rule : Option KeyRule} {value node : Schema} {v item w : Value}
      {entries : List (String × Value)} {key : String} {route : Route}
      (isMap : v.entries? = some entries) (member : (key, item) ∈ entries)
      (admitted : ∀ r, rule = some r → r.admits key = true)
      (below : Reaches value item route node w) :
      Reaches (.record pattern rule value) v (.key key :: route) node w
  | field {shape : List (String × Bool × Schema)} {strict optional : Bool} {s node : Schema}
      {v item w : Value} {entries : List (String × Value)} {name : String} {route : Route}
      (isMap : v.entries? = some entries) (declared : (name, optional, s) ∈ shape)
      (member : (name, item) ∈ entries) (below : Reaches s item route node w) :
      Reaches (.object shape strict) v (.key name :: route) node w

/-- What a node of a schema itself finds wrong with a value: the value as a whole; a key that must
be there and is not; a key that is not declared, if it is strict; a key that breaks the rule. -/
inductive Faults : Schema → Value → Route → IssueCause → Prop where
  | mismatch {s : Schema} {v : Value} (settled : s.settles v = true)
      (refused : s.accepts v = false) : Faults s v [] (.mismatch s v.kind)
  | missing {shape : List (String × Bool × Schema)} {strict : Bool} {s : Schema} {v : Value}
      {entries : List (String × Value)} {name : String} (isMap : v.entries? = some entries)
      (required : (name, false, s) ∈ shape) (absent : name ∉ Assoc.keys entries) :
      Faults (.object shape strict) v [.key name] (.missing s)
  | unrecognized {shape : List (String × Bool × Schema)} {v item : Value}
      {entries : List (String × Value)} {name : String} (isMap : v.entries? = some entries)
      (member : (name, item) ∈ entries) (undeclared : name ∉ Assoc.keys shape) :
      Faults (.object shape true) v [.key name] (.unrecognized name item.kind)
  | misnamed {pattern : Option String} {r : KeyRule} {value : Schema} {v item : Value}
      {entries : List (String × Value)} {key : String} (isMap : v.entries? = some entries)
      (member : (key, item) ∈ entries) (broken : r.admits key = false) :
      Faults (.record pattern (some r) value) v [.key key] (.misnamed key pattern r)

variable {s node : Schema} {v w : Value} {route own : Route} {cause : IssueCause} {issue : Issue}

/-! ## Places -/

/-- A place that is reached is one in the value. -/
theorem Reaches.holds (reached : s.Reaches v route node w) : v.Holds route.concrete w := by
  induction reached with
  | here s v => exact .here v
  | nullable _ _ ih => exact ih
  | @item _ _ v _ _ _ _ _ isList found _ ih =>
    cases v with
    | list form items =>
      cases isList
      exact .item found ih
    | _ => cases isList
  | @entry _ _ _ _ v _ _ _ _ _ isMap member _ _ ih =>
    cases v with
    | map form entries =>
      cases isMap
      obtain ⟨pair, among, same⟩ := List.mem_map.mp member
      cases same
      exact .entry among ih
    | _ => cases isMap
  | @field _ _ _ _ _ v _ _ _ _ _ isMap _ member _ ih =>
    cases v with
    | map form entries =>
      cases isMap
      obtain ⟨pair, among, same⟩ := List.mem_map.mp member
      cases same
      exact .entry among ih
    | _ => cases isMap

theorem Reaches.distinctNames (reached : s.Reaches v route node w) (distinct : s.DistinctNames) :
    node.DistinctNames := by
  induction reached with
  | here => exact distinct
  | nullable _ _ ih =>
    cases distinct with
    | nullable below => exact ih below
  | item _ _ _ ih =>
    cases distinct with
    | list below => exact ih below
  | entry _ _ _ _ ih =>
    cases distinct with
    | record below => exact ih below
  | field _ declared _ _ ih =>
    cases distinct with
    | object _ below => exact ih (below _ declared)

/-! ## The steps into parts -/

theorem items_distinct (element : Schema) (items : List Value) :
    ((items.zipIdx.map fun (item, i) => (RouteStep.item i, element.issues item)).map
      Prod.fst).Nodup := by
  have steps : (items.zipIdx.map fun (item, i) => (RouteStep.item i, element.issues item)).map
      Prod.fst = (items.zipIdx.map Prod.snd).map fun (i : Nat) => RouteStep.item i := by
    rw [List.map_map, List.map_map]
    rfl
  rw [steps, List.zipIdx_map_snd]
  refine List.Nodup.map ?_ List.nodup_range'
  exact fun i j same => Int.ofNat.inj (RouteStep.item.inj same)

theorem keys_distinct {entries : List (String × Value)} (distinct : (Assoc.keys entries).Nodup)
    (part : String × Value → List Issue) :
    ((entries.map fun entry => (RouteStep.key entry.1, part entry)).map Prod.fst).Nodup := by
  have steps : (entries.map fun entry => (RouteStep.key entry.1, part entry)).map Prod.fst =
      (Assoc.keys entries).map RouteStep.key := by
    simp [Assoc.keys]
  rw [steps]
  exact distinct.map fun name other same => RouteStep.key.inj same

theorem objectParts_distinct {shape : List (String × Bool × Schema)} (strict : Bool)
    {entries : List (String × Value)} (names : (Assoc.keys shape).Nodup)
    (distinct : (Assoc.keys entries).Nodup) :
    ((objectParts shape strict entries).map Prod.fst).Nodup := by
  have steps : (objectParts shape strict entries).map Prod.fst =
      (Assoc.keys shape ++
        if strict then Assoc.keys (undeclared shape entries) else []).map RouteStep.key := by
    cases strict <;> simp [objectParts, Assoc.keys, Function.comp_def]
  rw [steps]
  refine List.Nodup.map (fun name other same => RouteStep.key.inj same) ?_
  cases strict with
  | false => simpa using names
  | true =>
    have fewer : (Assoc.keys (undeclared shape entries)).Nodup :=
      distinct.sublist (List.filter_sublist.map Prod.fst)
    refine List.nodup_append.mpr ⟨names, fewer, ?_⟩
    rintro name declared _ other rfl
    obtain ⟨entry, among, rfl⟩ := List.mem_map.mp other
    have absent := (List.mem_filter.mp among).2
    rw [Assoc.contains_iff.mpr declared] at absent
    cases absent

/-! ## What is found, and where -/

/-- Issues of a value that is decided on as a whole are faults. -/
theorem faults_of_settles (settled : s.settles v = true) (member : issue ∈ s.issues v) :
    s.Faults v issue.route issue.cause := by
  rw [issues_of_settles settled] at member
  split at member
  · cases member
  · rename_i refused
    obtain rfl := List.mem_singleton.mp member
    exact .mismatch settled (Bool.eq_false_iff.mpr refused)

/-- A fault is an issue. -/
theorem Faults.mem_issues (fault : s.Faults v own cause) (distinct : s.DistinctNames)
    (json : v.IsJson) : ⟨own, cause⟩ ∈ s.issues v := by
  cases fault with
  | mismatch settled refused =>
    rw [issues_of_settles settled, refused]
    exact List.mem_singleton_self _
  | @missing shape strict field _ entries name isMap required absent =>
    rw [issues_object isMap (json.keys_nodup isMap), Issue.mem_gather]
    refine ⟨_, List.mem_append_left _ (List.mem_map_of_mem required), ⟨[], .missing field⟩, ?_, rfl⟩
    simp [fieldPart, Assoc.find?_eq_none_iff.mpr absent]
  | @unrecognized shape _ item entries name isMap member undeclared =>
    rw [issues_object isMap (json.keys_nodup isMap), Issue.mem_gather]
    have among : (name, item) ∈ Schema.undeclared shape entries := by
      refine List.mem_filter.mpr ⟨member, ?_⟩
      simpa [← Assoc.contains_iff] using undeclared
    exact ⟨_, List.mem_append_right _ (List.mem_map_of_mem among), _,
      List.mem_singleton_self _, rfl⟩
  | @misnamed pattern r value _ item entries key isMap member broken =>
    rw [issues_record isMap, Issue.mem_gather]
    refine ⟨_, List.mem_map_of_mem member, ⟨[], .misnamed key pattern r⟩, ?_, rfl⟩
    simp [entryPart, broken]

/-- The issues at a place that is reached and below it are those of the part that is reached. -/
theorem Reaches.issues_below (reached : s.Reaches v route node w) (distinct : s.DistinctNames)
    (json : v.IsJson) :
    ((s.issues v).filter fun issue => route.isPrefixOf issue.route) =
      (node.issues w).map (.under route) := by
  induction reached with
  | here s v => simp
  | nullable notNull below ih =>
    cases distinct with
    | nullable distinct =>
      rw [issues_nullable, notNull]
      exact ih distinct json
  | @item element _ _ item _ items i _ isList found below ih =>
    cases distinct with
    | list distinct =>
      have part : (RouteStep.item i, element.issues item) ∈
          items.zipIdx.map fun (item, i) => (RouteStep.item i, element.issues item) :=
        List.mem_map.mpr ⟨(item, i), List.mk_mem_zipIdx_iff_getElem?.mpr found, rfl⟩
      rw [issues_list isList, Issue.filter_gather (items_distinct element items) part,
        ih distinct (json.of_items isList _ (List.mem_of_getElem? found))]
      simp [Function.comp_def]
  | @entry pattern rule value _ _ item _ entries key _ isMap member admitted below ih =>
    cases distinct with
    | record distinct =>
      have part : entryPart pattern rule value (key, item) = value.issues item := by
        cases rule with
        | none => rfl
        | some r => exact if_pos (admitted r rfl)
      rw [issues_record isMap,
        Issue.filter_gather (keys_distinct (json.keys_nodup isMap) _) (List.mem_map_of_mem member),
        part, ih distinct (json.of_entries isMap _ member)]
      simp [Function.comp_def]
  | @field shape strict _ field _ _ item _ entries name _ isMap declared member below ih =>
    cases distinct with
    | object names distinct =>
      have keys := json.keys_nodup isMap
      have part : (RouteStep.key name, field.issues item) ∈ objectParts shape strict entries := by
        refine List.mem_append_left _ (List.mem_map.mpr ⟨_, declared, ?_⟩)
        simp [fieldPart, Assoc.find?_of_nodup keys member]
      rw [issues_object isMap keys,
        Issue.filter_gather (objectParts_distinct strict names keys) part,
        ih (distinct _ declared) (json.of_entries isMap _ member)]
      simp [Function.comp_def]

/-- A fault of a node that is reached, and the place where it lies. -/
def Pinpoints (s : Schema) (v : Value) (issue : Issue) : Prop :=
  ∃ front node w own, s.Reaches v front node w ∧ node.Faults w own issue.cause ∧
    issue.route = front ++ own

theorem Faults.pinpoints (fault : s.Faults v issue.route issue.cause) : s.Pinpoints v issue :=
  ⟨[], s, v, issue.route, .here s v, fault, rfl⟩

/-- Faults of a part are faults of the whole, below the step into the part. -/
theorem Pinpoints.under {s' : Schema} {v' : Value} {step : RouteStep}
    (pinpoints : s'.Pinpoints v' issue)
    (enter : ∀ {route node w}, s'.Reaches v' route node w → s.Reaches v (step :: route) node w) :
    s.Pinpoints v (issue.under [step]) := by
  obtain ⟨front, node, w, own, reached, fault, place⟩ := pinpoints
  exact ⟨step :: front, node, w, own, enter reached, fault, by simp [place]⟩

theorem pinpoints_of_entryPart {pattern : Option String} {rule : Option KeyRule} {value : Schema}
    {entries : List (String × Value)} {key : String} {item : Value}
    (isMap : v.entries? = some entries) (present : (key, item) ∈ entries)
    (below : issue ∈ value.issues item → value.Pinpoints item issue)
    (member : issue ∈ entryPart pattern rule value (key, item)) :
    (record pattern rule value).Pinpoints v (issue.under [.key key]) := by
  have entered (admitted : ∀ r, rule = some r → r.admits key = true)
      (inside : issue ∈ value.issues item) :
      (record pattern rule value).Pinpoints v (issue.under [.key key]) :=
    (below inside).under fun reached => .entry isMap present admitted reached
  cases rule with
  | none => exact entered (by simp) member
  | some r =>
    rw [entryPart] at member
    split at member
    · rename_i admitted
      exact entered (fun _ same => Option.some.inj same ▸ admitted) member
    · rename_i broken
      obtain rfl := List.mem_singleton.mp member
      exact Faults.pinpoints (.misnamed isMap present (Bool.eq_false_iff.mpr broken))

theorem pinpoints_of_fieldPart {shape : List (String × Bool × Schema)} {strict : Bool}
    {entries : List (String × Value)} {field : String × Bool × Schema}
    (isMap : v.entries? = some entries) (declared : field ∈ shape)
    (below : ∀ entry ∈ entries, issue ∈ field.2.2.issues entry.2 →
      field.2.2.Pinpoints entry.2 issue)
    (member : issue ∈ fieldPart entries field) :
    (object shape strict).Pinpoints v (issue.under [.key field.1]) := by
  obtain ⟨name, optional, s'⟩ := field
  rw [fieldPart] at member
  split at member
  · rename_i item found
    have present : (name, item) ∈ entries := Assoc.mem_of_find? found
    exact (below _ present member).under fun reached => .field isMap declared present reached
  · rename_i found
    cases optional with
    | true => cases member
    | false =>
      obtain rfl := List.mem_singleton.mp member
      exact Faults.pinpoints (.missing isMap declared (Assoc.find?_eq_none_iff.mp found))

theorem pinpoints_of_undeclared {shape : List (String × Bool × Schema)}
    {entries : List (String × Value)} {entry : String × Value} (isMap : v.entries? = some entries)
    (member : entry ∈ undeclared shape entries) :
    (object shape true).Pinpoints v ⟨[.key entry.1], .unrecognized entry.1 entry.2.kind⟩ := by
  obtain ⟨present, absent⟩ := List.mem_filter.mp member
  refine Faults.pinpoints (.unrecognized isMap present fun declared => ?_)
  rw [Assoc.contains_iff.mpr declared] at absent
  cases absent

/-- Whatever is found is a fault of a node that is reached. -/
theorem pinpoints_of_mem (json : v.IsJson) (member : issue ∈ s.issues v) :
    s.Pinpoints v issue := by
  induction s using Schema.ind generalizing v issue with
  | any => cases member
  | scalar | enum | union => exact (faults_of_settles rfl member).pinpoints
  | nullable inner ih =>
    rw [issues_nullable] at member
    split at member
    · cases member
    · rename_i notNull
      obtain ⟨front, node, w, own, reached, fault⟩ := ih json member
      exact ⟨front, node, w, own, .nullable (Bool.eq_false_iff.mpr notNull) reached, fault⟩
  | list element ih =>
    cases isList : v.items? with
    | none => exact (faults_of_settles (by simp [settles, isList]) member).pinpoints
    | some items =>
      rw [issues_list isList] at member
      obtain ⟨part, among, inside, insideMember, rfl⟩ := Issue.mem_gather.mp member
      obtain ⟨⟨item, i⟩, indexed, rfl⟩ := List.mem_map.mp among
      have found := List.mk_mem_zipIdx_iff_getElem?.mp indexed
      have below := ih (json.of_items isList _ (List.mem_of_getElem? found)) insideMember
      exact below.under fun reached => .item isList found reached
  | record pattern rule value ih =>
    cases isMap : v.entries? with
    | none => exact (faults_of_settles (by simp [settles, isMap]) member).pinpoints
    | some entries =>
      rw [issues_record isMap] at member
      obtain ⟨part, among, inside, insideMember, rfl⟩ := Issue.mem_gather.mp member
      obtain ⟨entry, present, rfl⟩ := List.mem_map.mp among
      have below := @ih entry.2 inside (json.of_entries isMap entry present)
      exact pinpoints_of_entryPart isMap present below insideMember
  | object shape strict ih =>
    cases isMap : v.entries? with
    | none => exact (faults_of_settles (by simp [settles, isMap]) member).pinpoints
    | some entries =>
      rw [issues_object isMap (json.keys_nodup isMap)] at member
      obtain ⟨part, among, inside, insideMember, rfl⟩ := Issue.mem_gather.mp member
      rcases List.mem_append.mp among with ofField | ofStranger
      · obtain ⟨field, declared, rfl⟩ := List.mem_map.mp ofField
        refine pinpoints_of_fieldPart isMap declared (fun entry present => ?_) insideMember
        exact ih field declared (json.of_entries isMap entry present)
      · cases strict with
        | false => cases ofStranger
        | true =>
          obtain ⟨entry, stranger, rfl⟩ := List.mem_map.mp ofStranger
          obtain rfl := List.mem_singleton.mp insideMember
          exact pinpoints_of_undeclared isMap stranger

/-- The issues of a value are the faults of the nodes that are reached. -/
theorem mem_issues_iff (distinct : s.DistinctNames) (json : v.IsJson) :
    issue ∈ s.issues v ↔ s.Pinpoints v issue := by
  refine ⟨pinpoints_of_mem json, ?_⟩
  rintro ⟨front, node, w, own, reached, fault, place⟩
  have found := fault.mem_issues (reached.distinctNames distinct) (json.of_holds reached.holds)
  have moved := List.mem_map_of_mem (f := Issue.under front) found
  rw [← reached.issues_below distinct json] at moved
  have same : Issue.under front ⟨own, issue.cause⟩ = issue := by
    rw [Issue.under, ← place]
  exact same ▸ (List.mem_filter.mp moved).1

/-- No issue lies at the place of another or below it. -/
theorem issues_apart (distinct : s.DistinctNames) (json : v.IsJson) :
    (s.issues v).Pairwise fun i j => i.route.Apart j.route := by
  have whole {s : Schema} {v : Value} (settled : s.settles v = true) :
      (s.issues v).Pairwise fun i j => i.route.Apart j.route := by
    rw [issues_of_settles settled]
    split
    · exact .nil
    · exact List.pairwise_singleton _ _
  induction s using Schema.ind generalizing v with
  | any => exact .nil
  | scalar | enum | union => exact whole rfl
  | nullable inner ih =>
    cases distinct with
    | nullable distinct =>
      rw [issues_nullable]
      split
      · exact .nil
      · exact ih distinct json
  | list element ih =>
    cases isList : v.items? with
    | none => exact whole (by simp [settles, isList])
    | some items =>
      cases distinct with
      | list distinct =>
        rw [issues_list isList]
        apply Issue.apart_gather (items_distinct element items)
        intro part among
        obtain ⟨⟨item, i⟩, indexed, rfl⟩ := List.mem_map.mp among
        exact ih distinct (json.of_items isList item (List.fst_mem_of_mem_zipIdx indexed))
  | record pattern rule value ih =>
    cases isMap : v.entries? with
    | none => exact whole (by simp [settles, isMap])
    | some entries =>
      cases distinct with
      | record distinct =>
        rw [issues_record isMap]
        apply Issue.apart_gather (keys_distinct (json.keys_nodup isMap) _)
        intro part among
        obtain ⟨entry, present, rfl⟩ := List.mem_map.mp among
        have below := ih distinct (json.of_entries isMap entry present)
        cases rule with
        | none => exact below
        | some r =>
          dsimp only [entryPart]
          split
          · exact below
          · exact List.pairwise_singleton _ _
  | object shape strict ih =>
    cases isMap : v.entries? with
    | none => exact whole (by simp [settles, isMap])
    | some entries =>
      cases distinct with
      | object names distinct =>
        have keys := json.keys_nodup isMap
        rw [issues_object isMap keys]
        apply Issue.apart_gather (objectParts_distinct strict names keys)
        intro part among
        rcases List.mem_append.mp among with ofField | ofStranger
        · obtain ⟨field, declared, rfl⟩ := List.mem_map.mp ofField
          dsimp only [fieldPart]
          split
          · rename_i item found
            have present := Assoc.mem_of_find? found
            exact ih field declared (distinct field declared) (json.of_entries isMap _ present)
          · split
            · exact .nil
            · exact List.pairwise_singleton _ _
        · cases strict with
          | false => cases ofStranger
          | true =>
            obtain ⟨entry, -, rfl⟩ := List.mem_map.mp ofStranger
            exact List.pairwise_singleton _ _

/-- A check of a JSON value finds issues. They lie apart from one another, and are the faults of the
nodes that the check comes to, each at the place where it lies in the value. At the place of a union
and below it there is one issue, the union's own, if no member accepts what is there, and else
none. -/
theorem issues_pinpoint_faults (readable : s.Readable) (distinct : s.DistinctNames)
    (json : v.IsJson) :
    ∃ issues, s.check v = .ok issues ∧
      (issues.Pairwise fun i j => i.route.Apart j.route) ∧
      (∀ issue, issue ∈ issues ↔ s.Pinpoints v issue) ∧
      (∀ issue ∈ issues, issue.path = issue.route.format) ∧
      (∀ route node w, s.Reaches v route node w → v.Holds route.concrete w) ∧
      ∀ route members w, s.Reaches v route (.union members) w →
        (issues.filter fun issue => route.isPrefixOf issue.route) =
          if (union members).accepts w then []
          else [⟨route, .mismatch (.union members) w.kind⟩] := by
  refine ⟨s.issues v, check_eq readable v, issues_apart distinct json,
    fun _ => mem_issues_iff distinct json, fun _ _ => rfl, fun _ _ _ => Reaches.holds, ?_⟩
  intro route members w reached
  have settled : (union members).settles w = true := rfl
  rw [reached.issues_below distinct json, issues_of_settles settled]
  split
  · rfl
  · simp [Issue.under]

/-- A map in which one key is missing, a value fits no member of a union, a key breaks the rule of a
record, and a key is not declared. -/
theorem issues_of_four_faults :
    let union : Schema := .union [.scalar "string", .list (.scalar "number")]
    let numbers : Schema :=
      .record (some "prefixed") (some (KeyPattern.stemRule "x")) (.scalar "number")
    let schema : Schema :=
      .object [("a", false, .scalar "number"), ("b", false, union), ("c", true, numbers)] true
    let v : Value := .map .plain [(.text "b", .list .list [.null]),
      (.text "c", .map .plain [(.text "x_y", .number (.int 1)), (.text "z", .null)]),
      (.text "d", .null)]
    schema.Readable ∧ schema.DistinctNames ∧ v.IsJson ∧
      ∃ issues, schema.check v = .ok issues ∧
        issues.map Issue.path = ["a", "b", "c.z", "d"] ∧
        (issues.Pairwise fun i j => i.route.Apart j.route) ∧
        (∀ issue ∈ issues, schema.Pinpoints v issue) ∧
        (issues.filter fun issue => [RouteStep.key "b"].isPrefixOf issue.route) =
          [⟨[.key "b"], .mismatch union .array⟩] := by
  intro union numbers schema v
  have wellFormed : (KeyPattern.stemRule "x").WellFormed :=
    KeyPattern.rule?_wellFormed (KeyPattern.rule?_prefixed (by decide))
  have readable : schema.Readable := by
    refine .object ?_
    simp only [List.forall_mem_cons, List.not_mem_nil, false_implies, implies_true, and_true]
    refine ⟨.scalar _, .union ?_, .record ?_ (.scalar _)⟩
    · simpa using ⟨.scalar _, .list (.scalar _)⟩
    · rintro _ ⟨⟩
      exact wellFormed
  have distinct : schema.DistinctNames := by
    refine .object (by decide) ?_
    simp only [List.forall_mem_cons, List.not_mem_nil, false_implies, implies_true, and_true]
    refine ⟨.scalar _, .union ?_, .record (.scalar _)⟩
    simpa using ⟨.scalar _, .list (.scalar _)⟩
  have json : v.IsJson := by
    refine .map (by simp) (by decide) ?_
    simp only [List.forall_mem_cons, List.not_mem_nil, false_implies, implies_true, and_true]
    refine ⟨.list (by simpa using .null), .map (by simp) (by decide) ?_, .null⟩
    simpa using ⟨.int 1, .null⟩
  obtain ⟨issues, checked, apart, found, -, -, unions⟩ :=
    issues_pinpoint_faults readable distinct json
  have same : issues = schema.issues v := Except.ok.inj (checked.symm.trans (check_eq readable v))
  have reached : schema.Reaches v [.key "b"] union (.list .list [.null]) :=
    .field rfl (.tail _ (.head _)) (.head _) (.here _ _)
  refine ⟨readable, distinct, json, issues, checked, ?_, apart, fun i => (found i).mp, ?_⟩
  · rw [same]
    decide +kernel
  · exact unions _ _ _ reached

end Schema
end SchemaInference
