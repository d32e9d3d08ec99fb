import SchemaInference.Proofs.BuildCalls
import SchemaInference.Proofs.OrderIndependence

/-! When inference gives no result. Three things can fail. A key cannot be written; the decision on
a record comes to a value that cannot be told from others, which it does exactly when the keys at a
position could make a record and nothing but leaves stands under the keys down to that of the value,
whether or not the values would go together; and there is too little room to make the schema. A
prediction and an analysis fail alike in the first two, and where they do not, the schema of the one
is made of the findings of the other. -/
namespace SchemaInference

namespace Samples
variable {s : Samples} {c : Config} {limit : Nat} {path : Path} {n : PathNode}

/-- A value was seen under one of some names; and under that name, and every name before it, nothing
but leaves was seen. -/
def LooksAt (s : Samples) (path : Path) (names : List String) (v : Value) : Prop :=
  ∃ before name after, names = before ++ name :: after ∧
    (∀ leaf ∈ before ++ [name], s.IsLeaf (path ++ [.key leaf])) ∧
    v ∈ s.valuesAt (path ++ [.key name])

theorem looksAt_cons {name : String} {rest : List String} {v : Value} :
    s.LooksAt path (name :: rest) v ↔ s.IsLeaf (path ++ [.key name]) ∧
      (v ∈ s.valuesAt (path ++ [.key name]) ∨ s.LooksAt path rest v) := by
  constructor
  · rintro ⟨before, found, after, split, leaves, seen⟩
    cases before with
    | nil =>
      cases split
      exact ⟨leaves _ (by simp), .inl seen⟩
    | cons first before =>
      cases split
      exact ⟨leaves _ (by simp), .inr ⟨before, found, after, rfl,
        fun leaf among => leaves leaf (List.mem_cons_of_mem _ among), seen⟩⟩
  · rintro ⟨leaf, seen | ⟨before, found, after, rfl, leaves, seen⟩⟩
    · exact ⟨[], name, rest, rfl, by simpa using leaf, seen⟩
    · exact ⟨name :: before, found, after, rfl, List.forall_mem_cons.mpr ⟨leaf, leaves⟩, seen⟩

/-- Where the keys make a pattern, the decision on a record tells the values apart that it looks
at. -/
theorem NodeOf.mem_decisionSteps (node : s.NodeOf path n) (closed : s.Closed limit) {height : Nat}
    {step : Step} : step ∈ (PathTree.ofSamples s).decisionSteps c height n ↔
      (PathTree.recordPattern? c n).isSome = true ∧
        ∃ v, s.LooksAt path n.names v ∧ step ∈ v.tellingSteps height := by
  rw [PathTree.decisionSteps, List.mem_ite_nil_right]
  refine and_congr_right fun _ => ?_
  have nodes := node.forall_childNodes closed
  generalize n.names = names, (PathTree.ofSamples s).childNodes n = children at nodes ⊢
  induction nodes with
  | nil => simp [LooksAt]
  | @cons name child rest others childNode _ ih =>
    simp only [looksAt_cons, List.takeWhile_cons]
    cases leaf : child.isLeaf with
    | false =>
      have notLeaf : ¬ s.IsLeaf (path ++ [.key name]) := by simp [← childNode.isLeaf_iff, leaf]
      simp [notLeaf]
    | true =>
      have isLeaf := childNode.isLeaf_iff.mp leaf
      simp only [if_true, List.flatMap_cons, List.mem_append, ih, isLeaf, true_and, or_and_right,
        exists_or, childNode.values, List.mem_flatMap]

/-! ## From the root down -/

/-- What stands below a position of documents stands in a list or a map that was seen there. -/
theorem entered_above {documents : List Value} {step : Segment}
    (there : path ++ [step] ∈ (samplesOf c documents).paths) :
    (step = .wildcard → ∃ v ∈ (samplesOf c documents).valuesAt path, v.isList = true) ∧
      ((∃ name, step = .key name) → (samplesOf c documents).keySetsAt path ≠ []) := by
  obtain ⟨document, member, concrete, w, holds, bounded, same⟩ := mem_paths_ofDocuments.mp there
  obtain ⟨front, last, rfl, frontSame, lastSame⟩ := Path.eq_concat_of_flat same
  obtain ⟨u, above, inside⟩ := holds.parent
  have shallow : front.length ≤ c.maxDepth := by simpa using bounded
  constructor
  · rintro rfl
    cases inside with
    | @item form items _ _ _ _ _ _ =>
      exact ⟨.list form items, mem_valuesAt_ofDocuments.mpr
        ⟨document, member, front, above, frontSame, .inl ⟨shallow, rfl⟩⟩, rfl⟩
    | entry => cases lastSame
  · rintro ⟨name, rfl⟩
    cases inside with
    | item => cases lastSame
    | @entry form entries _ _ _ _ _ _ =>
      exact List.ne_nil_of_mem (mem_keySetsAt_ofDocuments.mpr
        ⟨document, member, front, form, entries, above, frontSame, shallow, rfl⟩)

/-- Where nothing but leaves was seen, looking further tells nothing apart. -/
theorem NodeOf.structureSteps_of_isLeaf (node : s.NodeOf path n) (leaf : s.IsLeaf path)
    (height levels : Nat) : (PathTree.ofSamples s).structureSteps c height levels path = [] := by
  cases levels with
  | zero => rfl
  | succ levels =>
    have lists : n.lists = [] := by
      rw [PathNode.lists, node.values, List.filter_eq_nil_iff]
      intro v seen
      simp [(leaf.values v seen).1]
    have keySets : n.keySets = [] := node.keySets.trans leaf.keySets
    rw [PathTree.structureSteps, node.found]
    simp [lists, keySets]

variable {documents : List Value} {step : Step}

theorem NodeOf.mem_paths (node : s.NodeOf path n) (closed : s.Closed limit) : path ∈ s.paths :=
  closed.has_iff.mp (PathTree.has_iff.mpr ⟨n, node.found⟩)

/-- Looking at a position takes the steps of the decision on a record there, and of looking one step
further. -/
theorem mem_structureSteps_succ (filled : documents ≠ [])
    (node : (samplesOf c documents).NodeOf path n) (height levels : Nat) :
    step ∈ (PathTree.ofSamples (samplesOf c documents)).structureSteps c height (levels + 1) path ↔
      step ∈ (PathTree.ofSamples (samplesOf c documents)).decisionSteps c height n ∨
        ∃ last, path ++ [last] ∈ (samplesOf c documents).paths ∧
          step ∈ (PathTree.ofSamples (samplesOf c documents)).structureSteps c (height + 2) levels
            (path ++ [last]) := by
  have closed : (samplesOf c documents).Closed c.maxDepth := closed_ofDocuments filled
  have entered {name : String}
      (there : path ++ [Segment.key name] ∈ (samplesOf c documents).paths) :
      n.keySets.isEmpty ≠ true := by
    rw [node.keySets]
    simpa using (entered_above there).2 ⟨name, rfl⟩
  rw [PathTree.structureSteps, node.found]
  simp only [List.mem_append, List.mem_ite_nil_left, List.mem_ite_nil_right]
  constructor
  · rintro (⟨-, below⟩ | ⟨-, here | ⟨-, below⟩⟩)
    · cases found : n.element? with
      | none =>
        rw [found] at below
        cases below
      | some element =>
        rw [found] at below
        rw [node.element?, Option.ite_none_right_eq_some] at found
        obtain ⟨there, same⟩ := found
        cases same
        exact .inr ⟨.wildcard, there, below⟩
    · exact .inl here
    · obtain ⟨child, among, below⟩ := List.mem_flatMap.mp below
      obtain ⟨name, rfl, there⟩ := (node.mem_named closed child).mp among
      exact .inr ⟨.key name, there, below⟩
  · rintro (here | ⟨last, there, below⟩)
    · obtain ⟨-, _, ⟨before, name, after, names, -⟩, -⟩ := (node.mem_decisionSteps closed).mp here
      have among : name ∈ n.names := by simp [names]
      exact .inr ⟨entered ((node.mem_names closed).mp among), .inl here⟩
    · rcases closed.last_step there with rfl | ⟨name, rfl⟩
      · obtain ⟨v, seen, isList⟩ := (entered_above there).1 rfl
        have list : v ∈ n.lists := List.mem_filter.mpr ⟨node.values ▸ seen, isList⟩
        refine .inl ⟨by simpa using List.ne_nil_of_mem list, ?_⟩
        rw [node.element?, if_pos there]
        exact below
      · refine .inr ⟨entered there, .inr ⟨?_, List.mem_flatMap.mpr
          ⟨_, (node.mem_named closed _).mpr ⟨name, rfl, there⟩, below⟩⟩⟩
        -- Under the keys of a record stand leaves, where looking further takes no steps.
        rw [Option.isNone_iff_eq_none, Option.eq_none_iff_forall_not_mem]
        intro record isRecord
        obtain ⟨-, -, leaves, -⟩ := (node.record?_eq_some_iff closed).mp isRecord
        obtain ⟨child, childNode⟩ := closed.exists_node there
        have leaf := leaves name ((node.mem_names closed).mpr there)
        rw [childNode.structureSteps_of_isLeaf leaf] at below
        cases below

/-- Looking at a position takes the steps of the decisions on records there and below it, no deeper
than the greatest depth; each step down is two calls further in. -/
theorem mem_structureSteps (filled : documents ≠ []) {height levels : Nat}
    (there : path ∈ (samplesOf c documents).paths)
    (depth : path.length + levels = c.maxDepth + 1) :
    step ∈ (PathTree.ofSamples (samplesOf c documents)).structureSteps c height levels path ↔
      ∃ below n, (path ++ below).length ≤ c.maxDepth ∧
        (samplesOf c documents).NodeOf (path ++ below) n ∧
        step ∈ (PathTree.ofSamples (samplesOf c documents)).decisionSteps c
          (height + 2 * below.length) n := by
  have closed : (samplesOf c documents).Closed c.maxDepth := closed_ofDocuments filled
  induction levels generalizing path height with
  | zero =>
    refine iff_of_false (by simp [PathTree.structureSteps]) ?_
    rintro ⟨below, n, shallow, -⟩
    rw [List.length_append] at shallow
    omega
  | succ levels ih =>
    obtain ⟨n, node⟩ := closed.exists_node there
    have further (below : Path) : height + 2 + 2 * below.length = height + 2 * (below.length + 1) :=
      by omega
    have deeper {last : Segment} (lastThere : path ++ [last] ∈ (samplesOf c documents).paths) :=
      @ih (path ++ [last]) (height + 2) lastThere (Path.length_concat_add last depth)
    rw [mem_structureSteps_succ filled node]
    constructor
    · rintro (here | ⟨last, lastThere, member⟩)
      · refine ⟨[], n, ?_, ?_, here⟩
        · rw [List.append_nil]
          omega
        · rwa [List.append_nil]
      · obtain ⟨below, m, shallow, nodeBelow, decides⟩ := (deeper lastThere).mp member
        rw [List.append_assoc] at shallow nodeBelow
        rw [further] at decides
        exact ⟨last :: below, m, shallow, nodeBelow, decides⟩
    · rintro ⟨below, m, shallow, nodeBelow, decides⟩
      cases below with
      | nil =>
        rw [List.append_nil] at nodeBelow
        cases node.found.symm.trans nodeBelow.found
        exact .inl decides
      | cons last below =>
        rw [List.append_cons] at shallow nodeBelow
        rw [List.length_cons, ← further] at decides
        have lastThere := closed.mem_of_below (nodeBelow.mem_paths closed)
          (List.prefix_append (path ++ [last]) below)
        exact .inr ⟨last, lastThere, (deeper lastThere).mpr ⟨below, m, shallow, nodeBelow, decides⟩⟩

/-- The decision on a record at a flat path comes to a value: the greatest depth does not cut the
maps there off, their keys are enough and make a pattern for a record, and it looks at the value
under the keys. -/
structure ComesTo (s : Samples) (c : Config) (path : Path) (v : Value) : Prop where
  shallow : path.length ≤ c.maxDepth
  looked : ∃ n, s.NodeOf path n ∧ (PathTree.recordPattern? c n).isSome = true ∧
    s.LooksAt path n.names v

/-- The decision on a record fails at a flat path: it comes to a value that is refused there, two
calls further in for each step of the path. -/
def FailsAt (s : Samples) (c : Config) (room : Room) (path : Path) (cause : Refusal) : Prop :=
  ∃ v, s.ComesTo c path v ∧
    ∃ step ∈ v.tellingSteps (2 * path.length), step.refusal? room = some cause

theorem mem_decidingSteps (filled : documents ≠ []) : step ∈ decidingSteps c documents ↔
    ∃ path v, (samplesOf c documents).ComesTo c path v ∧
      step ∈ v.tellingSteps (2 * path.length) := by
  have closed : (samplesOf c documents).Closed c.maxDepth := closed_ofDocuments filled
  rw [decidingSteps, mem_structureSteps filled closed.root (by simp)]
  simp only [Nat.zero_add]
  constructor
  · rintro ⟨path, n, shallow, node, decides⟩
    obtain ⟨pattern, v, looked, member⟩ := (node.mem_decisionSteps closed).mp decides
    exact ⟨path, v, ⟨shallow, n, node, pattern, looked⟩, member⟩
  · rintro ⟨path, v, ⟨shallow, n, node, pattern, looked⟩, member⟩
    exact ⟨path, n, shallow, node, (node.mem_decisionSteps closed).mpr ⟨pattern, v, looked, member⟩⟩

variable {room : Room} {cause : Refusal}

theorem exists_failsAt_of_refusal? (filled : documents ≠ [])
    (refused : room.refusal? (decidingSteps c documents) = some cause) :
    ∃ path, (samplesOf c documents).FailsAt c room path cause := by
  obtain ⟨step, member, ends⟩ := Room.exists_of_refusal? refused
  obtain ⟨path, v, comes, among⟩ := (mem_decidingSteps filled).mp member
  exact ⟨path, v, comes, step, among, ends⟩

theorem not_failsAt_of_told (filled : documents ≠ [])
    (told : room.refusal? (decidingSteps c documents) = none) (path : Path) (cause : Refusal) :
    ¬ (samplesOf c documents).FailsAt c room path cause := by
  rintro ⟨v, comes, step, among, ends⟩
  have none := Room.refusal?_eq_none_iff.mp told step
    ((mem_decidingSteps filled).mpr ⟨path, v, comes, among⟩)
  cases none.symm.trans ends

theorem told_of_not_failsAt (filled : documents ≠ [])
    (goesOn : ∀ path cause, ¬ (samplesOf c documents).FailsAt c room path cause) :
    room.refusal? (decidingSteps c documents) = none := by
  refine Option.eq_none_iff_forall_not_mem.mpr fun cause refused => ?_
  obtain ⟨path, fails⟩ := exists_failsAt_of_refusal? filled refused
  exact goesOn path cause fails

/-- What a decision comes to, a document holds in one of its maps. -/
theorem ComesTo.exists_holds {v : Value} (comes : (samplesOf c documents).ComesTo c path v) :
    ∃ document ∈ documents, ∃ concrete name,
      document.Holds (concrete ++ [.key name]) v ∧ Path.flat concrete = path := by
  obtain ⟨-, n, -, -, before, name, after, -, -, seen⟩ := comes
  obtain ⟨document, member, concrete, holds, same, -⟩ := mem_valuesAt_ofDocuments.mp seen
  obtain ⟨front, last, rfl, frontSame, lastSame⟩ := Path.eq_concat_of_flat same
  cases last with
  | key other => exact ⟨document, member, front, other, holds, frontSame⟩
  | index position => cases lastSame

end Samples

open Samples

/-! ## Predictions and analyses -/

/-- The schema of findings is made where there is room for the calls. -/
theorem Analysis.build_eq (a : Analysis) (c : Config) (stack : Stack) : a.build c stack =
    if stack.building.fits (Schema.buildCalls c 0 a.shape) then .ok (a.schema c)
    else .error (.refused .tooDeep) := by
  unfold build Schema.build
  split <;> rfl

/-- An analysis fails where a key cannot be written or a decision on a record fails, and nowhere
else. -/
theorem analyze_cases {documents : List Value} (filled : documents ≠ []) (c : Config)
    (stack : Stack) :
    (∃ cause, (KeyRefused c.maxDepth stack.writing documents cause ∨
        ∃ path, (samplesOf c documents).FailsAt c stack.telling path cause) ∧
      analyze c documents stack = .error (.refused cause)) ∨
    (∀ cause, ¬ KeyRefused c.maxDepth stack.writing documents cause ∧
      ∀ path, ¬ (samplesOf c documents).FailsAt c stack.telling path cause) ∧
    analyze c documents stack = .ok (findingsOf c documents) := by
  obtain ⟨first, rest, rfl⟩ := List.exists_cons_of_ne_nil filled
  rw [analyze_cons]
  cases written : stack.writing.refusal? (writingSteps c (first :: rest)) with
  | some cause => exact .inl ⟨cause, .inl (keyRefused_of_refusal? written), rfl⟩
  | none =>
    cases told : stack.telling.refusal? (decidingSteps c (first :: rest)) with
    | some cause => exact .inl ⟨cause, .inr (exists_failsAt_of_refusal? filled told), rfl⟩
    | none =>
      exact .inr ⟨fun cause => ⟨not_keyRefused_of_written written cause,
        fun path => not_failsAt_of_told filled told path cause⟩, rfl⟩

/-- Documents that have nothing to look into have no keys. -/
theorem writingSteps_of_plain {c : Config} {documents : List Value} {schema : Schema}
    (found : plainSchema? c documents = some schema) : writingSteps c documents = [] := by
  refine List.eq_nil_iff_forall_not_mem.mpr fun step member => ?_
  obtain ⟨document, member, path, form, entries, holds, -, entry, among, -⟩ :=
    mem_keyStepsOf.mp member
  obtain ⟨-, null⟩ | ⟨-, empty⟩ | ⟨-, empty⟩ := plainSchema?_eq_some found
  · obtain rfl := null document member
    cases holds
  · obtain ⟨_, rfl⟩ := empty document member
    obtain rfl := eq_nil_of_holds_emptyList holds
    cases holds
  · obtain ⟨_, rfl⟩ := empty document member
    obtain rfl := eq_nil_of_holds_emptyMap holds
    cases holds
    cases among

/-- A prediction fails where an analysis does, and makes the schema of what it finds. Documents that
have nothing to look into take no room. -/
theorem predict_cons (c : Config) (first : Value) (rest : List Value) (stack : Stack) :
    predict c (first :: rest) stack =
      match analyze c (first :: rest) stack with
      | .error fault => .error fault
      | .ok found =>
        if (plainSchema? c (first :: rest)).isSome then .ok (found.schema c)
        else found.build c stack := by
  rw [analyze_cons]
  cases plain : plainSchema? c (first :: rest) with
  | some schema =>
    have filled : first :: rest ≠ [] := List.cons_ne_nil first rest
    have returned : predict c (first :: rest) stack = .ok schema := by simp [predict, plain]
    have told : decidingSteps c (first :: rest) = [] := structureSteps_of_plain filled plain _
    rw [writingSteps_of_plain plain, told, Room.refusal?_nil, Room.refusal?_nil, returned,
      (predict_eq returned).2]
    rfl
  | none =>
    rw [predict, if_neg (by simp), plain, collected_eq]
    cases stack.writing.refusal? (writingSteps c (first :: rest)) with
    | some cause => rfl
    | none =>
      show (samplesOf c (first :: rest)).schema c stack = _
      rw [Samples.schema, analysis, Samples.structureAt, c.levels_zero, decidingSteps]
      generalize stack.telling.refusal? ((PathTree.ofSamples
        (samplesOf c (first :: rest))).structureSteps c 0 (c.maxDepth + 1) []) = told
      cases told <;> rfl

/-- Where an analysis returns, a prediction makes the schema of what it found if there is room for
the calls. -/
theorem predict_of_found {c : Config} {first : Value} {rest : List Value} {stack : Stack}
    {found : Analysis} (analyzed : analyze c (first :: rest) stack = .ok found) :
    predict c (first :: rest) stack = .ok (found.schema c) ∨
      predict c (first :: rest) stack = .error (.refused .tooDeep) ∧
        stack.building.fits (Schema.buildCalls c 0 found.shape) = false := by
  rw [predict_cons, analyzed]
  dsimp only
  rw [Analysis.build_eq]
  split
  · exact .inl rfl
  · split
    · exact .inl rfl
    · rename_i unfit
      exact .inr ⟨rfl, by simpa using unfit⟩

/-- A prediction that returns could write all keys. -/
theorem written_of_predict {c : Config} {documents : List Value} {stack : Stack} {schema : Schema}
    (returned : predict c documents stack = .ok schema) :
    stack.writing.refusal? (writingSteps c documents) = none := by
  cases documents with
  | nil => rfl
  | cons first rest =>
    rw [predict_cons, analyze_cons] at returned
    cases written : stack.writing.refusal? (writingSteps c (first :: rest)) with
    | none => rfl
    | some cause =>
      rw [written] at returned
      cases returned

/-- What is found in some room is found in ample room. -/
theorem analyze_ample {c : Config} {documents : List Value} {stack : Stack} {found : Analysis}
    (returned : analyze c documents stack = .ok found) : analyze c documents = .ok found := by
  cases documents with
  | nil => cases returned
  | cons first rest =>
    rw [analyze_cons] at returned
    cases written : stack.writing.refusal? (writingSteps c (first :: rest)) with
    | some cause =>
      rw [written] at returned
      cases returned
    | none =>
      cases told : stack.telling.refusal? (decidingSteps c (first :: rest)) with
      | some cause =>
        rw [written, told] at returned
        cases returned
      | none =>
        rw [written, told] at returned
        cases returned
        exact analyze_of_unrefused (Room.refusal?_ample written) (Room.refusal?_ample told)

/-- With room enough a prediction comes to making the schema of what an analysis finds. -/
theorem predict_eq_map (c : Config) (first : Value) (rest : List Value) :
    predict c (first :: rest) = (analyze c (first :: rest)).map fun found => found.schema c := by
  rw [predict_cons]
  cases analyze c (first :: rest) with
  | error fault => rfl
  | ok found =>
    dsimp only
    rw [Analysis.build_eq]
    cases (plainSchema? c (first :: rest)).isSome <;> rfl

/-- A schema that is made in some room is made in ample room. -/
theorem predict_ample {c : Config} {documents : List Value} {stack : Stack} {schema : Schema}
    (returned : predict c documents stack = .ok schema) : predict c documents = .ok schema := by
  cases documents with
  | nil => cases returned
  | cons first rest =>
    cases analyzed : analyze c (first :: rest) stack with
    | error fault =>
      rw [predict_cons, analyzed] at returned
      cases returned
    | ok found =>
      rw [predict_eq_map, analyze_ample analyzed]
      obtain made | ⟨refused, -⟩ := predict_of_found analyzed
      · cases returned.symm.trans made
        rfl
      · cases returned.symm.trans refused

/-- A prediction comes to making the schema of what an analysis finds: both return it, or both fail.
So it is also for documents that have nothing to look into, where a prediction looks into nothing
and an analysis does: for each of the three kinds the schema made of the findings is the plain
one. -/
theorem predict_eq_schema_of_findings (c : Config) (first : Value) (rest : List Value) :
    let made := (analyze c (first :: rest)).map fun found =>
      Schema.ofStructure c found.predictions found.shape
    predict c (first :: rest) = made ∧
      ((∀ v ∈ first :: rest, v = .null) → made = .ok .null) ∧
      ((∀ v ∈ first :: rest, ∃ form, v = .list form []) → made = .ok (.list .any)) ∧
      ((∀ v ∈ first :: rest, ∃ form, v = .map form []) →
        made = .ok (.object [] c.strictObjects)) := by
  intro made
  have same : predict c (first :: rest) = made := predict_eq_map c first rest
  have plain {schema : Schema} (found : plainSchema? c (first :: rest) = some schema) :
      made = .ok schema := by
    rw [← same]
    simp [predict, found]
  refine ⟨same, fun nulls => plain ?_, fun lists => plain ?_, fun maps => plain ?_⟩
  · have all : (first :: rest).all Value.isNull = true :=
      List.all_eq_true.mpr fun v member => by rw [nulls v member]; rfl
    rw [plainSchema?, if_pos all]
  · have all : ((first :: rest).all fun v => v.items?.any List.isEmpty) = true :=
      List.all_eq_true.mpr fun v member => by
        obtain ⟨form, rfl⟩ := lists v member
        rfl
    obtain ⟨form, rfl⟩ := lists first List.mem_cons_self
    rw [plainSchema?, if_neg (by simp [Value.isNull]), if_pos all]
  · have all : ((first :: rest).all fun v => v.entries?.any List.isEmpty) = true :=
      List.all_eq_true.mpr fun v member => by
        obtain ⟨form, rfl⟩ := maps v member
        rfl
    obtain ⟨form, rfl⟩ := maps first List.mem_cons_self
    rw [plainSchema?, if_neg (by simp [Value.isNull]), if_neg (by simp [Value.items?]), if_pos all]

/-- An empty list beside an empty tuple, and two empty maps. -/
theorem plain_schema_of_findings :
    (analyze default [.list .list [], .list .tuple []]).map (fun found =>
        Schema.ofStructure default found.predictions found.shape) = .ok (.list .any) ∧
      (analyze default [.map .plain [], .map .ordered []]).map (fun found =>
        Schema.ofStructure default found.predictions found.shape) = .ok (.object [] true) ∧
      (analyze default [.null, .null]).map (fun found =>
        Schema.ofStructure default found.predictions found.shape) = .ok .null :=
  ⟨(predict_eq_schema_of_findings default _ _).2.2.1 (by simp),
    (predict_eq_schema_of_findings default _ _).2.2.2 (by simp),
    (predict_eq_schema_of_findings default _ _).2.1 (by simp)⟩

/-- Inference of a document or more gives a result, unless something is refused on the way. First
the keys are written. Then the decisions on records tell values apart that the documents hold in
maps. Nothing else fails an analysis; a prediction may also find too little room for the calls that
make the schema, of which there are seven for each level at the most. -/
theorem infers_or_refuses (c : Config) (first : Value) (rest : List Value) (stack : Stack) :
    (∃ cause, KeyRefused c.maxDepth stack.writing (first :: rest) cause ∧
      predict c (first :: rest) stack = .error (.refused cause) ∧
      analyze c (first :: rest) stack = .error (.refused cause)) ∨
    (∀ cause, ¬ KeyRefused c.maxDepth stack.writing (first :: rest) cause) ∧
    ((∃ path cause, (samplesOf c (first :: rest)).FailsAt c stack.telling path cause ∧
        predict c (first :: rest) stack = .error (.refused cause) ∧
        analyze c (first :: rest) stack = .error (.refused cause) ∧
        ∃ document ∈ first :: rest, ∃ concrete name v, Path.flat concrete = path ∧
          document.Holds (concrete ++ [.key name]) v ∧
          ∃ step ∈ v.tellingSteps (2 * path.length), step.refusal? stack.telling = some cause) ∨
      (∀ path cause, ¬ (samplesOf c (first :: rest)).FailsAt c stack.telling path cause) ∧
      ∃ findings, analyze c (first :: rest) stack = .ok findings ∧
        (predict c (first :: rest) stack = .ok (findings.schema c) ∨
          predict c (first :: rest) stack = .error (.refused .tooDeep) ∧
          stack.building.fits (Schema.buildCalls c 0 findings.shape) = false ∧
          stack.building.fits (7 * (c.maxDepth + 1) + 1) = false)) := by
  have filled : first :: rest ≠ [] := List.cons_ne_nil first rest
  cases written : stack.writing.refusal? (writingSteps c (first :: rest)) with
  | some cause =>
    have analyzed : analyze c (first :: rest) stack = .error (.refused cause) := by
      rw [analyze_cons, written]
    refine .inl ⟨cause, keyRefused_of_refusal? written, ?_, analyzed⟩
    rw [predict_cons, analyzed]
  | none =>
    refine .inr ⟨not_keyRefused_of_written written, ?_⟩
    cases told : stack.telling.refusal? (decidingSteps c (first :: rest)) with
    | some cause =>
      have analyzed : analyze c (first :: rest) stack = .error (.refused cause) := by
        rw [analyze_cons, written, told]
      obtain ⟨path, fails⟩ := exists_failsAt_of_refusal? filled told
      obtain ⟨v, comes, refused⟩ := id fails
      obtain ⟨document, member, concrete, name, holds, same⟩ := comes.exists_holds
      refine .inl ⟨path, cause, fails, ?_, analyzed, document, member, concrete, name, v, same,
        holds, refused⟩
      rw [predict_cons, analyzed]
    | none =>
      have analyzed := analyze_of_unrefused written told
      refine .inr ⟨not_failsAt_of_told filled told, _, analyzed, ?_⟩
      refine (predict_of_found analyzed).imp_right fun ⟨refused, unfit⟩ => ⟨refused, unfit, ?_⟩
      exact Room.not_fits_of_le unfit (PathTree.buildCalls_structureAt_le (Nat.zero_add _) [])

/-- A window through which bytes can change is refused under a key with a shared stem, although it
could not go together with the number beside it, so that there is no record to decide on. -/
theorem no_schema_of_window :
    let window : Window := { mark := 0, writable := true, onChanging := true }
    let document : Value := .map .plain [(.text "a_x", .leaf (.window window [1])),
      (.text "a_y", .number (.int 1))]
    predict default [document] = .error (.refused .writable) ∧
      analyze default [document] = .error (.refused .writable) ∧
      ¬ ∃ schema, predict default [document] = .ok schema := by
  dsimp only
  have analyzed : analyze default [.map .plain [
      (.text "a_x", .leaf (.window { mark := 0, writable := true, onChanging := true } [1])),
      (.text "a_y", .number (.int 1))]] = .error (.refused .writable) := by
    rw [analyze_cons]
    rfl
  have refused : predict default [.map .plain [
      (.text "a_x", .leaf (.window { mark := 0, writable := true, onChanging := true } [1])),
      (.text "a_y", .number (.int 1))]] = .error (.refused .writable) := by
    rw [predict_cons, analyzed]
  refine ⟨refused, analyzed, ?_⟩
  rintro ⟨schema, returned⟩
  rw [refused] at returned
  cases returned

end SchemaInference
