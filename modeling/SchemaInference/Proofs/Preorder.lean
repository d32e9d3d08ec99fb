import SchemaInference.Proofs.Collection
import SchemaInference.Samples.Walk

/-! Collecting is a walk in pre-order. The stack of the collector always stands for the visits that
are still to come, in order; so it files, document after document and from left to right, the
values and the keys that stand at the places of the documents, down to one level below the greatest
depth, and nothing else. It ends early only at a key that cannot be written. -/
namespace SchemaInference

namespace Value

mutual

/-- The places in a value that stands at a path: its own first, then those of its parts from left
to right. No place is left out, however deep. -/
def placesAt (path : Path) : Value → List (Path × Value)
  | .list form items => (path, .list form items) :: itemPlaces path 0 items
  | .map form entries => (path, .map form entries) :: entryPlaces path entries
  | v => [(path, v)]

/-- The places in the items of a list, the first of which has this position. -/
def itemPlaces (path : Path) (position : Nat) : List Value → List (Path × Value)
  | [] => []
  | v :: rest => placesAt (path ++ [.item position]) v ++ itemPlaces path (position + 1) rest

/-- The places in the values of a map. -/
def entryPlaces (path : Path) : List (Value × Value) → List (Path × Value)
  | [] => []
  | (key, v) :: rest => placesAt (path ++ [.key key.alone]) v ++ entryPlaces path rest

end

variable {limit : Nat} {path : Path} {v w : Value}

theorem itemPlaces_eq (path : Path) (position : Nat) (items : List Value) :
    itemPlaces path position items =
      (items.zipIdx position).flatMap fun item => item.1.placesAt (path ++ [.item item.2]) := by
  induction items generalizing position with
  | nil => rfl
  | cons v rest ih => simp [itemPlaces, ih]

theorem entryPlaces_eq (path : Path) (entries : List (Value × Value)) :
    entryPlaces path entries =
      entries.flatMap fun entry => entry.2.placesAt (path ++ [.key entry.1.alone]) := by
  induction entries with
  | nil => rfl
  | cons entry rest ih => simp [entryPlaces, ih]

/-- A value has its own place and those of its children. -/
theorem placesAt_eq (path : Path) (v : Value) : v.placesAt path =
    (path, v) :: (v.children path).flatMap fun child => child.2.placesAt child.1 := by
  cases v with
  | list form items => rw [placesAt, itemPlaces_eq, children, List.flatMap_map]
  | map form entries => rw [placesAt, entryPlaces_eq, children, List.flatMap_map]
  | _ => rfl

theorem mem_children {child : Path × Value} : child ∈ v.children path ↔
    ∃ step, child.1 = path ++ [step] ∧ v.Holds [step] child.2 := by
  obtain ⟨below, w⟩ := child
  constructor
  · intro member
    cases v with
    | list form items =>
      obtain ⟨⟨item, i⟩, found, same⟩ := List.mem_map.mp member
      cases same
      exact ⟨.item i, rfl, .item (List.mem_zipIdx_iff_getElem?.mp found) (.here _)⟩
    | map form entries =>
      obtain ⟨entry, among, same⟩ := List.mem_map.mp member
      cases same
      exact ⟨.key entry.1.alone, rfl, .entry among (.here _)⟩
    | _ => cases member
  · rintro ⟨step, rfl, holds⟩
    cases holds with
    | item found here =>
      cases here
      exact List.mem_map.mpr ⟨(w, _), List.mk_mem_zipIdx_iff_getElem?.mpr found, rfl⟩
    | entry among here =>
      cases here
      exact List.mem_map.mpr ⟨_, among, rfl⟩

/-- What is held is held by what stands one step below. -/
theorem Holds.uncons {step : Segment} {below : Path} (holds : v.Holds (step :: below) w) :
    ∃ u, v.Holds [step] u ∧ u.Holds below w := by
  cases holds with
  | item found deeper => exact ⟨_, .item found (.here _), deeper⟩
  | entry member deeper => exact ⟨_, .entry member (.here _), deeper⟩

/-- Induction over values as documents, from what stands one step below to what it stands in. -/
@[elab_as_elim]
theorem childInd {motive : Value → Prop}
    (step : ∀ v, (∀ path, ∀ child ∈ v.children path, motive child.2) → motive v)
    (v : Value) : motive v := by
  induction v using Value.ind with
  | leaf v notList notMap =>
    apply step
    intro path child among
    cases v <;> first | cases among | contradiction
  | list form items ih =>
    apply step
    intro path child among
    obtain ⟨item, found, rfl⟩ := List.mem_map.mp among
    exact ih item.1 (List.fst_mem_of_mem_zipIdx found)
  | map form entries ih =>
    apply step
    intro path child among
    obtain ⟨entry, found, rfl⟩ := List.mem_map.mp among
    exact ih entry found

/-- The places in a value are the paths at which it holds something. -/
theorem mem_placesAt {place : Path × Value} :
    place ∈ v.placesAt path ↔ ∃ below, place.1 = path ++ below ∧ v.Holds below place.2 := by
  induction v using childInd generalizing path with
  | step v ih =>
    rw [placesAt_eq, List.mem_cons, List.mem_flatMap]
    constructor
    · rintro (rfl | ⟨child, isChild, among⟩)
      · exact ⟨[], by simp, .here v⟩
      · obtain ⟨step, childPath, first⟩ := mem_children.mp isChild
        obtain ⟨below, same, second⟩ := (ih path child isChild).mp among
        exact ⟨step :: below, by simp [same, childPath], first.trans second⟩
    · rintro ⟨below, same, holds⟩
      cases below with
      | nil =>
        rw [List.append_nil] at same
        exact .inl (Prod.ext same holds.eq_of_nil)
      | cons step rest =>
        obtain ⟨u, first, second⟩ := holds.uncons
        have isChild : (path ++ [step], u) ∈ v.children path := mem_children.mpr ⟨step, rfl, first⟩
        exact .inr ⟨_, isChild, (ih path _ isChild).mpr ⟨rest, by simp [same], second⟩⟩

/-! ## Visits are places -/

/-- The visit of a place, if it is not beyond what is visited. -/
def visit? (limit : Nat) (place : Path × Value) : Option Visit :=
  if place.1.length ≤ limit + 1 then some (visitAt limit place.1 place.2) else none

theorem visitsBelow_eq (limit : Nat) (path : Path) (v : Value) : visitsBelow limit path v =
    (v.children path).flatMap fun child => child.2.visits limit child.1 := by
  cases v <;> simp [visitsBelow, children, List.flatMap_map]

/-- A value is visited place by place, in order; places far below the greatest depth are left
out. -/
theorem visits_eq_filterMap (shallow : path.length ≤ limit + 1) :
    v.visits limit path = (v.placesAt path).filterMap (visit? limit) := by
  induction v using childInd generalizing path with
  | step v ih =>
    have here : visit? limit (path, v) = some (visitAt limit path v) := if_pos shallow
    rw [visits_eq, placesAt_eq, List.filterMap_cons, here]
    simp only [List.cons.injEq, true_and]
    split
    · rename_i deep
      -- Below a value that is not entered all places lie too far.
      symm
      rw [List.filterMap_eq_nil_iff]
      intro place among
      obtain ⟨child, isChild, among⟩ := List.mem_flatMap.mp among
      obtain ⟨step, childPath, -⟩ := mem_children.mp isChild
      obtain ⟨below, same, -⟩ := mem_placesAt.mp among
      apply if_neg
      rw [same, childPath]
      simp only [List.length_append, List.length_cons, List.length_nil]
      omega
    · rename_i notDeep
      rw [visitsBelow_eq, List.filterMap_flatMap]
      apply List.flatMap_congr
      intro child isChild
      obtain ⟨step, childPath, -⟩ := mem_children.mp isChild
      apply ih path child isChild
      rw [childPath, List.length_append, List.length_singleton]
      omega

end Value

namespace Bucket

/-- The bucket of the places that are filed in it, if any are. Its path is that of the first. -/
def ofPlaces : List (Path × Value) → Option Bucket
  | [] => none
  | place :: rest => some ⟨place.1, place.2 :: rest.map Prod.snd⟩

theorem foldl_add (places : List (Path × Value)) :
    places.foldl (fun found place => some (add place.1 place.2 found)) none = ofPlaces places := by
  have more (b : Bucket) (rest : List (Path × Value)) :
      rest.foldl (fun found place => some (add place.1 place.2 found)) (some b) =
        some { b with values := b.values ++ rest.map Prod.snd } := by
    induction rest generalizing b with
    | nil => simp
    | cons place rest ih =>
      rw [List.foldl_cons, ih]
      simp [add]
  cases places with
  | nil => rfl
  | cons place rest => exact more _ rest

end Bucket

/-- What a visit files under a flat path, with the concrete path that led there. -/
def Visit.placeUnder? (path : Path) (visit : Visit) : Option (Path × Value) :=
  (visit.valueUnder? path).map fun v => (visit.path, v)

/-- Whether a visit is of a value that is not entered. -/
def Visit.isCut : Visit → Bool
  | .cut .. => true
  | _ => false

namespace Samples
variable {s : Samples} {path : Path} {limit : Nat}

/-! ## The stack -/

/-- The steps of writing the keys of the maps at some places, those apart that are not entered. -/
def keyStepsOf (limit : Nat) (places : List (Path × Value)) : List Step :=
  places.flatMap fun place => if limit < place.1.length then [] else place.2.keySteps

theorem keyStepsOf_append (places rest : List (Path × Value)) :
    keyStepsOf limit (places ++ rest) = keyStepsOf limit places ++ keyStepsOf limit rest :=
  List.flatMap_append

/-- No key is written below a value that is not entered. -/
theorem keyStepsOf_of_deep {v : Value} (deep : limit < path.length) :
    keyStepsOf limit (v.placesAt path) = [] := by
  refine List.flatMap_eq_nil_iff.mpr fun place among => if_pos ?_
  obtain ⟨below, same, -⟩ := Value.mem_placesAt.mp among
  rw [same, List.length_append]
  omega

/-- The keys of a value that is entered are written first, then those of its children in turn. -/
theorem keyStepsOf_placesAt (limit : Nat) (path : Path) (v : Value) :
    keyStepsOf limit (v.placesAt path) = if limit < path.length then [] else
      v.keySteps ++ (v.children path).flatMap fun child =>
        keyStepsOf limit (child.2.placesAt child.1) := by
  split
  · rename_i deep
    exact keyStepsOf_of_deep deep
  · rename_i notDeep
    rw [Value.placesAt_eq, keyStepsOf, List.flatMap_cons, if_neg notDeep, List.flatMap_assoc]
    rfl

/-- The places of what waits on a stack, from the top to the bottom. -/
def waitingPlaces (stack : List (Path × Value)) : List (Path × Value) :=
  stack.flatMap fun pair => pair.2.placesAt pair.1

/-- Where a value is entered its own keys are written first, then those of what takes its place. -/
theorem keyStepsOf_entering {v : Value} (notDeep : ¬ limit < path.length)
    (waiting : List (Path × Value)) :
    keyStepsOf limit (waitingPlaces ((path, v) :: waiting)) =
      v.keySteps ++ keyStepsOf limit (waitingPlaces (v.children path ++ waiting)) := by
  have here : waitingPlaces ((path, v) :: waiting) =
      (path, v) :: waitingPlaces (v.children path ++ waiting) := by
    rw [waitingPlaces, waitingPlaces, List.flatMap_cons, Value.placesAt_eq, List.flatMap_append]
    rfl
  rw [here, keyStepsOf, List.flatMap_cons, if_neg notDeep]
  rfl

/-- What is filed from a stack is what the visits of its values file, from the top to the bottom,
unless a key cannot be written on the way. -/
theorem walk_eq (limit : Nat) (room : Room) (s : Samples) (stack : List (Path × Value)) :
    walk limit room s stack =
      match room.refusal? (keyStepsOf limit (waitingPlaces stack)) with
      | some cause => .error cause
      | none => .ok ((stack.flatMap fun pair => pair.2.visits limit pair.1).foldl record s) := by
  fun_induction walk limit room s stack with
  | case1 => rfl
  | case2 s path v waiting deep ih =>
    have once : v.visits limit path = [.cut path v] := by
      rw [Value.visits_eq, if_pos deep]
      unfold Value.visitAt
      rw [if_pos deep]
    have none : keyStepsOf limit (waitingPlaces ((path, v) :: waiting)) =
        keyStepsOf limit (waitingPlaces waiting) := by
      rw [waitingPlaces, List.flatMap_cons, keyStepsOf_append, keyStepsOf_of_deep deep]
      rfl
    rw [ih, none, List.flatMap_cons, once]
    rfl
  | case3 s path v waiting notDeep cause refused =>
    have first := keyStepsOf_entering (v := v) notDeep waiting
    rw [first, Room.refusal?_append, refused]
    rfl
  | case4 s path v waiting notDeep written ih =>
    have first := keyStepsOf_entering (v := v) notDeep waiting
    have entered : v.visits limit path = .entering path v ::
        (v.children path).flatMap fun child => child.2.visits limit child.1 := by
      have first : Value.visitAt limit path v = .entering path v := by
        unfold Value.visitAt
        rw [if_neg notDeep]
        cases v <;> rfl
      rw [Value.visits_eq, if_neg notDeep, Value.visitsBelow_eq, first]
    rw [ih, first, Room.refusal?_append, written, List.flatMap_cons, entered, List.flatMap_append,
      List.cons_append, List.foldl_cons, Option.none_or]

/-- The samples of a document more, unless one of its keys cannot be written. -/
theorem collect_eq (limit : Nat) (s : Samples) (document : Value) (room : Room) :
    collect limit s document room =
      match room.refusal? (keyStepsOf limit (document.placesAt [])) with
      | some cause => .error cause
      | none => .ok (s.add limit document) := by
  rw [collect, walk_eq, List.flatMap_singleton, waitingPlaces, List.flatMap_singleton]
  rfl

/-- The places in some documents, one document after another. -/
def placesOf (documents : List Value) : List (Path × Value) :=
  documents.flatMap (Value.placesAt [])

/-- Documents are collected one after another up to a key that cannot be written. -/
theorem collectAll_eq (limit : Nat) (documents : List Value) (room : Room) :
    collectAll limit documents room =
      match room.refusal? (keyStepsOf limit (placesOf documents)) with
      | some cause => .error cause
      | none => .ok (ofDocuments limit documents) := by
  have onwards (s : Samples) :
      documents.foldlM (fun s document => collect limit s document room) s =
        match room.refusal? (keyStepsOf limit (placesOf documents)) with
        | some cause => .error cause
        | none => .ok (documents.foldl (add limit) s) := by
    induction documents generalizing s with
    | nil => rfl
    | cons document rest ih =>
      have first : keyStepsOf limit (placesOf (document :: rest)) =
          keyStepsOf limit (document.placesAt []) ++ keyStepsOf limit (placesOf rest) :=
        keyStepsOf_append _ _
      rw [List.foldlM_cons, collect_eq, first, Room.refusal?_append]
      cases room.refusal? (keyStepsOf limit (document.placesAt [])) with
      | some cause => rfl
      | none => exact ih _
  exact onwards empty

/-! ## Filing -/

/-- What is read off samples that each visit changes by what it files there, or not at all, is
changed in order by all that is filed there. -/
private theorem foldl_record_eq {β γ : Type} (read : Samples → β) (filed? : Visit → Option γ)
    (change : β → γ → β)
    (once : ∀ s visit, read (record s visit) = (filed? visit).elim (read s) (change (read s)))
    (visits : List Visit) :
    read (visits.foldl record s) = (visits.filterMap filed?).foldl change (read s) := by
  induction visits generalizing s with
  | nil => rfl
  | cons visit rest ih =>
    rw [List.foldl_cons, ih, once, List.filterMap_cons]
    cases filed? visit <;> rfl

private theorem bucket_record (s : Samples) (visit : Visit) :
    Assoc.find? path (s.record visit).buckets =
      (visit.placeUnder? path).elim (Assoc.find? path s.buckets)
        fun place => some (Bucket.add place.1 place.2 (Assoc.find? path s.buckets)) := by
  have updated (visited : Path) (v : Value) :
      Assoc.find? path (Assoc.update visited.flat (Bucket.add visited v) s.buckets) =
        ((if visited.flat = path then some v else none).map fun v => (visited, v)).elim
          (Assoc.find? path s.buckets)
          fun place => some (Bucket.add place.1 place.2 (Assoc.find? path s.buckets)) := by
    by_cases same : visited.flat = path
    · subst same
      simp
    · simp [Assoc.find?_update_of_ne (Ne.symm same), same]
  cases visit with
  | sample visited v => exact updated visited v
  | map visited keys =>
    simp [record, Visit.placeUnder?, Visit.valueUnder?, Visit.value?]
  | cut visited v => exact updated visited v

private theorem keySet_record (s : Samples) (visit : Visit) :
    Assoc.find? path (s.record visit).keySets =
      (visit.keysUnder? path).elim (Assoc.find? path s.keySets)
        fun keys => some ((Assoc.find? path s.keySets).getD [] ++ [keys]) := by
  cases visit with
  | map visited keys =>
    by_cases same : visited.flat = path
    · subst same
      simp [record, Visit.keysUnder?, Visit.path, Visit.keys?]
    · simp [record, Visit.keysUnder?, Visit.path, Assoc.find?_update_of_ne (Ne.symm same), same]
  | _ => simp [record, Visit.keysUnder?, Visit.keys?]

private theorem truncated_foldl_record (visits : List Visit) :
    (visits.foldl record s).truncated = s.truncated + visits.countP Visit.isCut := by
  induction visits generalizing s with
  | nil => rfl
  | cons visit rest ih =>
    rw [List.foldl_cons, ih, List.countP_cons]
    cases visit <;> simp [record, Visit.isCut, Nat.add_assoc, Nat.add_comm 1]

private theorem keys_update_nodup {β : Type} {key : Path} {change : Option β → β}
    {pairs : List (Path × β)} (distinct : (Assoc.keys pairs).Nodup) :
    (Assoc.keys (Assoc.update key change pairs)).Nodup := by
  rw [Assoc.keys_update]
  split
  · exact distinct
  · rename_i fresh
    rw [List.nodup_append]
    refine ⟨distinct, by simp, ?_⟩
    rintro other there _ last rfl
    exact fresh (List.mem_singleton.mp last ▸ there)

private theorem distinct_foldl_record (visits : List Visit)
    (distinct : (Assoc.keys s.buckets).Nodup ∧ (Assoc.keys s.keySets).Nodup) :
    (Assoc.keys (visits.foldl record s).buckets).Nodup ∧
      (Assoc.keys (visits.foldl record s).keySets).Nodup := by
  induction visits generalizing s with
  | nil => exact distinct
  | cons visit rest ih =>
    apply ih
    cases visit with
    | sample visited v => exact ⟨keys_update_nodup distinct.1, distinct.2⟩
    | map visited keys => exact ⟨distinct.1, keys_update_nodup distinct.2⟩
    | cut visited v => exact ⟨keys_update_nodup distinct.1, distinct.2⟩

/-! ## Places and what is filed of them -/

/-- A value is filed under the flat form of its path. Maps are entered in place of being filed, down
to the greatest depth; what stands one level below it is filed whole. -/
def FiledUnder (limit : Nat) (path : Path) (place : Path × Value) : Prop :=
  place.1.flat = path ∧
    (place.1.length ≤ limit ∧ place.2.isMap = false ∨ place.1.length = limit + 1)

instance (limit : Nat) (path : Path) : DecidablePred (FiledUnder limit path) :=
  fun place => inferInstanceAs (Decidable (place.1.flat = path ∧
    (place.1.length ≤ limit ∧ place.2.isMap = false ∨ place.1.length = limit + 1)))

/-- The texts of the keys of a map that is entered at such a place. -/
def keysUnder? (limit : Nat) (path : Path) (place : Path × Value) : Option (List String) :=
  match place.2 with
  | .map _ entries =>
    if place.1.flat = path ∧ place.1.length ≤ limit then
      some (entries.map fun entry => entry.1.alone)
    else none
  | _ => none

theorem visitsOf_eq (limit : Nat) (documents : List Value) :
    visitsOf limit documents = (placesOf documents).filterMap (Value.visit? limit) := by
  rw [visitsOf, placesOf, List.filterMap_flatMap]
  apply List.flatMap_congr
  intro document _
  exact Value.visits_eq_filterMap (Nat.zero_le _)

/-- What is filed of a place is what its visit files. -/
private theorem placeUnder?_visit? (place : Path × Value) :
    (Value.visit? limit place).bind (Visit.placeUnder? path) =
      Option.guard (fun place => decide (FiledUnder limit path place)) place := by
  obtain ⟨concrete, v⟩ := place
  unfold Value.visit? FiledUnder Visit.placeUnder? Option.guard
  by_cases visited : concrete.length ≤ limit + 1
  · by_cases same : concrete.flat = path
    · by_cases deep : limit < concrete.length
      · have cut : concrete.length = limit + 1 := by omega
        simp [Visit.valueUnder?, path_visitAt, value?_visitAt, same, cut]
      · have notCut : concrete.length ≠ limit + 1 := by omega
        have shallow : concrete.length ≤ limit := by omega
        by_cases isMap : v.isMap = true <;>
          simp [Visit.valueUnder?, path_visitAt, value?_visitAt, visited, same, deep, notCut,
            shallow, isMap]
    · simp [Visit.valueUnder?, path_visitAt, same]
  · have far : ¬ (concrete.length ≤ limit ∧ v.isMap = false ∨ concrete.length = limit + 1) := by
      omega
    simp [visited, far]

private theorem keysUnder?_visit? (place : Path × Value) :
    (Value.visit? limit place).bind (Visit.keysUnder? path) = keysUnder? limit path place := by
  obtain ⟨concrete, v⟩ := place
  cases isMap : v.isMap with
  | false =>
    -- What is no map has no keys to file.
    have noKeys : (Value.visitAt limit concrete v).keys? = none := by
      rw [Option.eq_none_iff_forall_ne_some]
      intro keys filed
      obtain ⟨-, form, entries, rfl, -⟩ := keys?_visitAt_eq_some.mp filed
      cases isMap
    have none : keysUnder? limit path (concrete, v) = none := by
      cases v <;> first | rfl | cases isMap
    rw [none, Value.visit?]
    split
    · rw [Option.bind_some, Visit.keysUnder?, noKeys, ite_self]
    · rfl
  | true =>
    cases v <;> cases isMap
    by_cases same : concrete.flat = path
    · by_cases deep : limit < concrete.length
      · have notShallow : ¬ concrete.length ≤ limit := by omega
        by_cases visited : concrete.length ≤ limit + 1 <;>
          simp [Value.visit?, Value.visitAt, Visit.keysUnder?, Visit.keys?, keysUnder?, deep,
            notShallow, visited]
      · have shallow : concrete.length ≤ limit := by omega
        have visited : concrete.length ≤ limit + 1 := by omega
        simp [Value.visit?, Value.visitAt, Visit.keysUnder?, Visit.path, Visit.keys?, keysUnder?,
          deep, shallow, visited, same]
    · simp [Value.visit?, Visit.keysUnder?, path_visitAt, keysUnder?, same]

private theorem isCut_visit? (place : Path × Value) :
    ((Value.visit? limit place).map Visit.isCut).getD false =
      decide (place.1.length = limit + 1) := by
  obtain ⟨concrete, v⟩ := place
  unfold Value.visit? Value.visitAt
  by_cases visited : concrete.length ≤ limit + 1
  · by_cases deep : limit < concrete.length
    · have cut : concrete.length = limit + 1 := by omega
      simp [cut, Visit.isCut]
    · have notCut : concrete.length ≠ limit + 1 := by omega
      cases v <;> simp [visited, deep, notCut, Visit.isCut]
  · have notCut : concrete.length ≠ limit + 1 := by omega
    simp [visited, notCut]

/-! ## The samples of documents, place by place -/

theorem bucket_ofDocuments (limit : Nat) (documents : List Value) (path : Path) :
    Assoc.find? path (ofDocuments limit documents).buckets =
      Bucket.ofPlaces ((placesOf documents).filter fun place => FiledUnder limit path place) := by
  have filed : (visitsOf limit documents).filterMap (Visit.placeUnder? path) =
      (placesOf documents).filter fun place => FiledUnder limit path place := by
    rw [visitsOf_eq, List.filterMap_filterMap, ← List.filterMap_eq_filter]
    apply List.filterMap_congr
    intro place _
    exact placeUnder?_visit? place
  rw [ofDocuments_eq, foldl_record_eq (fun s => Assoc.find? path s.buckets)
    (Visit.placeUnder? path) (fun found place => some (Bucket.add place.1 place.2 found))
    bucket_record, filed]
  exact Bucket.foldl_add _

private theorem foldl_keySets (sets : List (List String)) (found : Option (List (List String))) :
    sets.foldl (fun found keys => some (found.getD [] ++ [keys])) found =
      if sets = [] then found else some (found.getD [] ++ sets) := by
  induction sets generalizing found with
  | nil => rfl
  | cons keys rest ih =>
    rw [List.foldl_cons, ih]
    by_cases last : rest = [] <;> simp [last]

theorem keySet_ofDocuments (limit : Nat) (documents : List Value) (path : Path) :
    Assoc.find? path (ofDocuments limit documents).keySets =
      if (placesOf documents).filterMap (keysUnder? limit path) = [] then none
      else some ((placesOf documents).filterMap (keysUnder? limit path)) := by
  have filed : (visitsOf limit documents).filterMap (Visit.keysUnder? path) =
      (placesOf documents).filterMap (keysUnder? limit path) := by
    rw [visitsOf_eq, List.filterMap_filterMap]
    apply List.filterMap_congr
    intro place _
    exact keysUnder?_visit? place
  rw [ofDocuments_eq, foldl_record_eq (fun s => Assoc.find? path s.keySets)
    (Visit.keysUnder? path) (fun found keys => some (found.getD [] ++ [keys])) keySet_record, filed]
  exact foldl_keySets _ none

theorem truncated_ofDocuments (limit : Nat) (documents : List Value) :
    (ofDocuments limit documents).truncated =
      (placesOf documents).countP fun place => place.1.length = limit + 1 := by
  rw [ofDocuments_eq, truncated_foldl_record, visitsOf_eq, List.countP_filterMap]
  simp only [isCut_visit?, Nat.zero_add]

theorem documents_ofDocuments (limit : Nat) (documents : List Value) :
    (ofDocuments limit documents).documents = documents.length := by
  have kept (visits : List Visit) (s : Samples) :
      (visits.foldl record s).documents = s.documents := by
    induction visits generalizing s with
    | nil => rfl
    | cons visit rest ih =>
      rw [List.foldl_cons, ih]
      cases visit <;> rfl
  rw [ofDocuments_eq, kept]

theorem distinct_ofDocuments (limit : Nat) (documents : List Value) :
    (Assoc.keys (ofDocuments limit documents).buckets).Nodup ∧
      (Assoc.keys (ofDocuments limit documents).keySets).Nodup := by
  rw [ofDocuments_eq]
  apply distinct_foldl_record
  exact ⟨List.nodup_nil, List.nodup_nil⟩

theorem mem_placesOf {documents : List Value} {place : Path × Value} :
    place ∈ placesOf documents ↔ ∃ document ∈ documents, document.Holds place.1 place.2 := by
  simp [placesOf, Value.mem_placesAt]

/-- Samples file some places: every flat path has the values that are filed under it and the key
texts of the maps there, each in the order of the places and as often as there are places, and what
is not at one of the places is not filed. -/
structure FiledFrom (limit : Nat) (places : List (Path × Value)) (s : Samples) : Prop where
  values (path : Path) : s.valuesAt path =
    (places.filter fun place => FiledUnder limit path place).map Prod.snd
  firstPath (path : Path) : (Assoc.find? path s.buckets).map Bucket.firstPath =
    ((places.filter fun place => FiledUnder limit path place).map Prod.fst).head?
  keySets (path : Path) : s.keySetsAt path = places.filterMap (keysUnder? limit path)
  hasMap (path : Path) : s.hasMap path = !(places.filterMap (keysUnder? limit path)).isEmpty
  truncated : s.truncated = places.countP fun place => place.1.length = limit + 1
  nothingBelow : ∀ path ∈ s.paths, path.length ≤ limit + 1
  bucketsDistinct : (Assoc.keys s.buckets).Nodup
  keySetsDistinct : (Assoc.keys s.keySets).Nodup

theorem filedFrom_ofDocuments (limit : Nat) (documents : List Value) :
    (ofDocuments limit documents).FiledFrom limit (placesOf documents) where
  values path := by
    rw [valuesAt_eq, bucket_ofDocuments]
    cases (placesOf documents).filter fun place => FiledUnder limit path place <;> rfl
  firstPath path := by
    rw [bucket_ofDocuments]
    cases (placesOf documents).filter fun place => FiledUnder limit path place <;> rfl
  keySets path := by
    rw [keySetsAt, keySet_ofDocuments]
    split
    · rename_i nothing
      rw [nothing, Option.getD_none]
    · rfl
  hasMap path := by
    rw [hasMap, Assoc.contains, keySet_ofDocuments]
    cases (placesOf documents).filterMap (keysUnder? limit path) <;> simp
  truncated := truncated_ofDocuments limit documents
  nothingBelow := by
    intro path among
    obtain ⟨_, _, concrete, _, _, shallow, rfl⟩ := mem_paths_ofDocuments.mp among
    rw [Path.length_flat]
    exact shallow
  bucketsDistinct := (distinct_ofDocuments limit documents).1
  keySetsDistinct := (distinct_ofDocuments limit documents).2

/-- A map that is entered, in one of some documents, has a key that is refused with this cause when
it is written. -/
def KeyRefused (limit : Nat) (room : Room) (documents : List Value) (cause : Refusal) : Prop :=
  ∃ document ∈ documents, ∃ path form entries, document.Holds path (.map form entries) ∧
    path.length ≤ limit ∧ ∃ entry ∈ entries, room.refusal? (entry.1.aloneSteps 0) = some cause

theorem mem_keyStepsOf {documents : List Value} {step : Step} :
    step ∈ keyStepsOf limit (placesOf documents) ↔ ∃ document ∈ documents, ∃ path form entries,
      document.Holds path (.map form entries) ∧ path.length ≤ limit ∧
        ∃ entry ∈ entries, step ∈ entry.1.aloneSteps 0 := by
  simp only [keyStepsOf, List.mem_flatMap, List.mem_ite_nil_left, Nat.not_lt]
  constructor
  · rintro ⟨⟨path, v⟩, among, shallow, written⟩
    obtain ⟨document, member, holds⟩ := mem_placesOf.mp among
    cases v with
    | map form entries =>
      exact ⟨document, member, path, form, entries, holds, shallow, List.mem_flatMap.mp written⟩
    | _ => cases written
  · rintro ⟨document, member, path, form, entries, holds, shallow, written⟩
    exact ⟨(path, .map form entries), mem_placesOf.mpr ⟨document, member, holds⟩, shallow,
      List.mem_flatMap.mpr written⟩

variable {room : Room} {documents : List Value}

theorem keyRefused_of_refusal? {cause : Refusal}
    (refused : room.refusal? (keyStepsOf limit (placesOf documents)) = some cause) :
    KeyRefused limit room documents cause := by
  obtain ⟨⟨path, v⟩, among, refused⟩ := Room.exists_of_refusal?_flatMap refused
  obtain ⟨document, member, holds⟩ := mem_placesOf.mp among
  split at refused
  · cases refused
  · rename_i notDeep
    cases v with
    | map form entries =>
      obtain ⟨entry, inside, refused⟩ := Room.exists_of_refusal?_flatMap refused
      exact ⟨document, member, path, form, entries, holds, Nat.le_of_not_lt notDeep, entry, inside,
        refused⟩
    | _ => cases refused

theorem not_keyRefused_of_written
    (written : room.refusal? (keyStepsOf limit (placesOf documents)) = none) (cause : Refusal) :
    ¬ KeyRefused limit room documents cause := by
  rintro ⟨document, member, path, form, entries, holds, shallow, entry, among, refused⟩
  obtain ⟨step, isStep, found⟩ := Room.exists_of_refusal? refused
  have none := Room.refusal?_eq_none_iff.mp written step (mem_keyStepsOf.mpr
    ⟨document, member, path, form, entries, holds, shallow, entry, among, isStep⟩)
  rw [none] at found
  cases found

/-- Collecting ends early exactly if a key of a map that is entered cannot be written. Otherwise it
files exactly the places of the documents, in order. The samples so collected are those from which
types are inferred. -/
theorem collected_in_order (limit : Nat) (documents : List Value) (room : Room) :
    (∃ cause, KeyRefused limit room documents cause ∧
      collectAll limit documents room = .error cause) ∨
    (∀ cause, ¬ KeyRefused limit room documents cause) ∧
      ∃ samples, collectAll limit documents room = .ok samples ∧
        samples.FiledFrom limit (placesOf documents) ∧ samples.documents = documents.length ∧
        samples = ofDocuments limit documents ∧
        ∀ place, place ∈ placesOf documents ↔
          ∃ document ∈ documents, document.Holds place.1 place.2 := by
  rw [collectAll_eq]
  cases refused : room.refusal? (keyStepsOf limit (placesOf documents)) with
  | some cause => exact .inl ⟨cause, keyRefused_of_refusal? refused, rfl⟩
  | none =>
    exact .inr ⟨not_keyRefused_of_written refused, _, rfl, filedFrom_ofDocuments limit documents,
      documents_ofDocuments limit documents, rfl, fun _ => mem_placesOf⟩

/-- The key of a map is a whole number with too many digits to be written, in the form of a
fraction. -/
theorem no_samples_of_long_key :
    let key : Value := .leaf (.fraction (.ofInt (.ofNat (Nat.pow 10 5000))))
    let document : Value := .map .plain [(key, .number (.int 1))]
    collectAll (default : Config).maxDepth [document] = .error .overlong ∧
      ¬ ∃ samples, collectAll (default : Config).maxDepth [document] = .ok samples := by
  intro key document
  have written : Room.refusal? none (keyStepsOf (default : Config).maxDepth
      (placesOf [document])) = some .overlong := by decide +kernel
  have refused : collectAll (default : Config).maxDepth [document] = .error .overlong := by
    rw [collectAll_eq, written]
  refine ⟨refused, ?_⟩
  rintro ⟨samples, collected⟩
  rw [refused] at collected
  cases collected

/-- A key that reads as the wildcard stays apart from positions; keys that are written alike share
their values, in order. -/
example : (collectAll 1 [.list .list [.null], .map .plain [(.text "$", .bool false),
      (.text "1", .bool true), (.number (.int 1), .text "one")]]).map
      (fun s => (s.valuesAt [.key "$"], s.valuesAt [.key "1"])) =
    .ok ([.bool false], [.bool true, .text "one"]) := by
  cbv

end Samples

end SchemaInference
