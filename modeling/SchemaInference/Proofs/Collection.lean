import Mathlib.Data.List.Basic
import SchemaInference.Samples

/-! What samples hold. A document holds a value at every concrete path into it, and the samples of
documents are exactly what they hold down to one level below the greatest depth, filed under flat
paths. Every later statement about samples speaks of the documents through these equivalences. -/
namespace SchemaInference

namespace Value

/-- A value holds another at a concrete path: itself at the empty one, and what the items of a list
and the entries of a map hold. -/
inductive Holds : Value → Path → Value → Prop where
  | here (v : Value) : Holds v [] v
  | item {form : ListForm} {items : List Value} {i : Nat} {item : Value} {path : Path} {w : Value}
      (found : items[i]? = some item) (below : Holds item path w) :
      Holds (.list form items) (.item i :: path) w
  | entry {form : MapForm} {entries : List (Value × Value)} {key item : Value} {path : Path}
      {w : Value} (member : (key, item) ∈ entries) (below : Holds item path w) :
      Holds (.map form entries) (.key key.alone :: path) w

/-- A value holds itself alone at the empty path. -/
theorem Holds.eq_of_nil {v w : Value} (holds : v.Holds [] w) : w = v := by
  cases holds
  rfl

/-- Induction over values as documents: leaves have no parts that count. -/
@[elab_as_elim]
theorem ind {motive : Value → Prop}
    (leaf : ∀ v, v.isList = false → v.isMap = false → motive v)
    (list : ∀ form items, (∀ item ∈ items, motive item) → motive (.list form items))
    (map : ∀ form entries, (∀ entry ∈ entries, motive entry.2) → motive (.map form entries))
    (v : Value) : motive v :=
  @Value.rec motive (fun items => ∀ item ∈ items, motive item)
    (fun entries => ∀ entry ∈ entries, motive entry.2) (fun entry => motive entry.2)
    (leaf _ rfl rfl) (fun _ => leaf _ rfl rfl) (fun _ => leaf _ rfl rfl) (fun _ => leaf _ rfl rfl)
    list map (fun _ _ _ => leaf _ rfl rfl) (fun _ _ _ => leaf _ rfl rfl) (fun _ => leaf _ rfl rfl)
    (by simp) (fun _ _ head tail => List.forall_mem_cons.mpr ⟨head, tail⟩)
    (by simp) (fun _ _ head tail => List.forall_mem_cons.mpr ⟨head, tail⟩)
    (fun _ _ _ below => below) v

/-- What is held by something that is held is held. -/
theorem Holds.trans {v u w : Value} {path below : Path} (first : v.Holds path u)
    (second : u.Holds below w) : v.Holds (path ++ below) w := by
  induction first with
  | here => exact second
  | item found _ ih => exact .item found (ih second)
  | entry member _ ih => exact .entry member (ih second)

/-- What stands at a path stands in something at the path without its last step. -/
theorem Holds.parent {v w : Value} {path : Path} {step : Segment}
    (holds : v.Holds (path ++ [step]) w) : ∃ u, v.Holds path u ∧ u.Holds [step] w := by
  induction path generalizing v with
  | nil => exact ⟨v, .here v, holds⟩
  | cons _ path ih =>
    cases holds with
    | item found below =>
      obtain ⟨u, above, here⟩ := ih below
      exact ⟨u, .item found above, here⟩
    | entry member below =>
      obtain ⟨u, above, here⟩ := ih below
      exact ⟨u, .entry member above, here⟩

/-! ## Visits -/

/-- What a visit meets at a path where this value stands. -/
def visitAt (limit : Nat) (path : Path) (v : Value) : Visit :=
  if limit < path.length then .cut path v
  else match v with
    | .map _ entries => .map path (entries.map fun entry => entry.1.alone)
    | v => .sample path v

/-- The visits of the parts of a value that is entered. -/
def visitsBelow (limit : Nat) (path : Path) : Value → List Visit
  | .list _ items => items.zipIdx.flatMap fun (v, i) => v.visits limit (path ++ [.item i])
  | .map _ entries => entries.flatMap fun (key, v) => v.visits limit (path ++ [.key key.alone])
  | _ => []

theorem itemVisits_eq (limit : Nat) (path : Path) (position : Nat) (items : List Value) :
    itemVisits limit path position items =
      (items.zipIdx position).flatMap fun (v, i) => v.visits limit (path ++ [.item i]) := by
  induction items generalizing position with
  | nil => rfl
  | cons v rest ih => simp [itemVisits, ih]

theorem entryVisits_eq (limit : Nat) (path : Path) (entries : List (Value × Value)) :
    entryVisits limit path entries =
      entries.flatMap fun (key, v) => v.visits limit (path ++ [.key key.alone]) := by
  induction entries with
  | nil => rfl
  | cons entry rest ih => simp [entryVisits, ih]

/-- A value is visited before its parts, which are passed over beyond the greatest depth. -/
theorem visits_eq (limit : Nat) (path : Path) (v : Value) :
    v.visits limit path =
      visitAt limit path v :: if limit < path.length then [] else visitsBelow limit path v := by
  by_cases deep : limit < path.length <;>
    cases v <;> simp [visits, visitAt, visitsBelow, deep, itemVisits_eq, entryVisits_eq]

theorem Holds.cons_inv {v w : Value} {step : Segment} {path : Path}
    (holds : v.Holds (step :: path) w) :
    (∃ form items i item, v = .list form items ∧ items[i]? = some item ∧ step = .item i ∧
      item.Holds path w) ∨
    ∃ form entries key item, v = .map form entries ∧ (key, item) ∈ entries ∧
      step = .key key.alone ∧ item.Holds path w := by
  cases holds with
  | item found below => exact .inl ⟨_, _, _, _, rfl, found, rfl, below⟩
  | entry member below => exact .inr ⟨_, _, _, _, rfl, member, rfl, below⟩

/-- What is below a value is visited if and only if the value is entered, so what it holds is
visited if what it holds below itself is. -/
theorem mem_visits_of_below {limit : Nat} {path : Path} {v : Value} {visit : Visit}
    (shallow : path.length ≤ limit + 1)
    (below : path.length ≤ limit → (visit ∈ visitsBelow limit path v ↔ ∃ step below w,
      v.Holds (step :: below) w ∧ (path ++ step :: below).length ≤ limit + 1 ∧
        visit = visitAt limit (path ++ step :: below) w)) :
    visit ∈ v.visits limit path ↔ ∃ below w, v.Holds below w ∧
      (path ++ below).length ≤ limit + 1 ∧ visit = visitAt limit (path ++ below) w := by
  rw [visits_eq, List.mem_cons]
  constructor
  · rintro (here | deeper)
    · exact ⟨[], v, .here v, by simpa using shallow, by simpa using here⟩
    · split at deeper
      · cases deeper
      · rename_i notDeep
        obtain ⟨step, below, w, found⟩ := (below (by omega)).mp deeper
        exact ⟨step :: below, w, found⟩
  · rintro ⟨path', w, holds, bounded, rfl⟩
    cases path' with
    | nil =>
      cases holds
      simp
    | cons step rest =>
      have notDeep : ¬ limit < path.length := by
        simp only [List.length_append, List.length_cons] at bounded
        omega
      rw [if_neg notDeep]
      exact .inr ((below (by omega)).mpr ⟨step, rest, w, holds, bounded, rfl⟩)

/-- The visits of a value are one for each value that it holds, down to one level below the greatest
depth. -/
theorem mem_visits {limit : Nat} {path : Path} {v : Value} {visit : Visit}
    (shallow : path.length ≤ limit + 1) :
    visit ∈ v.visits limit path ↔ ∃ below w, v.Holds below w ∧
      (path ++ below).length ≤ limit + 1 ∧ visit = visitAt limit (path ++ below) w := by
  induction v using Value.ind generalizing path with
  | leaf v notList notMap =>
    refine mem_visits_of_below shallow fun _ => ?_
    have nothing : visitsBelow limit path v = [] := by
      cases v <;> first | rfl | contradiction
    rw [nothing]
    refine iff_of_false List.not_mem_nil ?_
    rintro ⟨step, below, w, holds, -⟩
    rcases holds.cons_inv with ⟨_, _, _, _, rfl, _⟩ | ⟨_, _, _, _, rfl, _⟩ <;> contradiction
  | list form items ih =>
    refine mem_visits_of_below shallow fun notDeep => ?_
    have next (i : Nat) : (path ++ [Segment.item i]).length ≤ limit + 1 := by simpa using notDeep
    simp only [visitsBelow, List.mem_flatMap, Prod.exists, List.mem_zipIdx_iff_getElem?]
    constructor
    · rintro ⟨item, i, found, among⟩
      obtain ⟨below, w, holds, bounded, rfl⟩ :=
        (ih item (List.mem_of_getElem? found) (next i)).mp among
      exact ⟨.item i, below, w, .item found holds, by simpa using bounded, by simp⟩
    · rintro ⟨step, below, w, holds, bounded, rfl⟩
      cases holds with
      | @item _ _ i item _ _ found holds =>
        refine ⟨item, i, found, (ih item (List.mem_of_getElem? found) (next i)).mpr ?_⟩
        exact ⟨below, w, holds, by simpa using bounded, by simp⟩
  | map form entries ih =>
    refine mem_visits_of_below shallow fun notDeep => ?_
    have next (key : Value) : (path ++ [Segment.key key.alone]).length ≤ limit + 1 := by
      simpa using notDeep
    simp only [visitsBelow, List.mem_flatMap, Prod.exists]
    constructor
    · rintro ⟨key, item, member, among⟩
      obtain ⟨below, w, holds, bounded, rfl⟩ := (ih (key, item) member (next key)).mp among
      exact ⟨.key key.alone, below, w, .entry member holds, by simpa using bounded, by simp⟩
    · rintro ⟨step, below, w, holds, bounded, rfl⟩
      cases holds with
      | @entry _ _ key item _ _ member holds =>
        refine ⟨key, item, member, (ih (key, item) member (next key)).mpr ?_⟩
        exact ⟨below, w, holds, by simpa using bounded, by simp⟩

end Value

namespace Visit

/-- Where a visit was. -/
def path : Visit → Path
  | .sample path _ | .map path _ | .cut path _ => path

/-- The value that a visit files. The keys of a map are filed in its place. -/
def value? : Visit → Option Value
  | .sample _ v | .cut _ v => some v
  | .map .. => none

/-- The keys that a visit files. -/
def keys? : Visit → Option (List String)
  | .map _ keys => some keys
  | _ => none

/-- The value that a visit files under a flat path. -/
def valueUnder? (path : Path) (visit : Visit) : Option Value :=
  if visit.path.flat = path then visit.value? else none

/-- The keys that a visit files under a flat path. -/
def keysUnder? (path : Path) (visit : Visit) : Option (List String) :=
  if visit.path.flat = path then visit.keys? else none

end Visit

namespace Samples
variable {s : Samples} {path : Path} {limit : Nat} {documents : List Value}

/-! ## Filing -/

theorem valuesAt_eq :
    s.valuesAt path = ((Assoc.find? path s.buckets).map Bucket.values).getD [] := by
  unfold valuesAt
  cases Assoc.find? path s.buckets <;> rfl

theorem values_add (path : Path) (v : Value) (found : Option Bucket) :
    (Bucket.add path v found).values = (found.map Bucket.values).getD [] ++ [v] := by
  cases found <;> rfl

private theorem values_update (visited : Path) (v : Value) (buckets : List (Path × Bucket)) :
    ((Assoc.find? path (Assoc.update visited.flat (Bucket.add visited v) buckets)).map
        Bucket.values).getD [] =
      ((Assoc.find? path buckets).map Bucket.values).getD [] ++
        (if visited.flat = path then some v else none).toList := by
  by_cases same : visited.flat = path
  · subst same
    simp [values_add]
  · simp [Assoc.find?_update_of_ne (Ne.symm same), same]

theorem valuesAt_record (visit : Visit) :
    (s.record visit).valuesAt path = s.valuesAt path ++ (visit.valueUnder? path).toList := by
  rw [valuesAt_eq, valuesAt_eq]
  cases visit with
  | sample visited v => exact values_update visited v s.buckets
  | map visited keys => simp [record, Visit.valueUnder?, Visit.value?]
  | cut visited v => exact values_update visited v s.buckets

theorem keySetsAt_record (visit : Visit) :
    (s.record visit).keySetsAt path = s.keySetsAt path ++ (visit.keysUnder? path).toList := by
  unfold keySetsAt Visit.keysUnder?
  cases visit with
  | map visited keys =>
    by_cases same : visited.flat = path
    · subst same
      simp [record, Visit.path, Visit.keys?]
    · simp [record, Visit.path, Assoc.find?_update_of_ne (Ne.symm same), same]
  | _ => simp [record, Visit.keys?]

private theorem mem_keys_update {β : Type} {key other : Path} {change : Option β → β}
    {pairs : List (Path × β)} :
    key ∈ Assoc.keys (Assoc.update other change pairs) ↔ key ∈ Assoc.keys pairs ∨ key = other := by
  rw [Assoc.keys_update]
  split
  · rename_i there
    exact ⟨.inl, fun among => among.elim id fun same => same ▸ there⟩
  · simp

theorem mem_paths :
    path ∈ s.paths ↔ path ∈ Assoc.keys s.buckets ∨ path ∈ Assoc.keys s.keySets := by
  by_cases there : path ∈ Assoc.keys s.buckets <;> simp [paths, there]

theorem mem_paths_record (visit : Visit) :
    path ∈ (s.record visit).paths ↔ path ∈ s.paths ∨ visit.path.flat = path := by
  rw [mem_paths, mem_paths]
  cases visit <;> simp only [record, Visit.path, mem_keys_update, eq_comm (a := path)] <;> tauto

/-! ## The samples of documents -/

theorem valuesAt_foldl_record (visits : List Visit) :
    (visits.foldl record s).valuesAt path =
      s.valuesAt path ++ visits.filterMap (Visit.valueUnder? path) := by
  induction visits generalizing s with
  | nil => simp
  | cons visit rest ih =>
    rw [List.foldl_cons, ih, valuesAt_record, List.filterMap_cons]
    cases Visit.valueUnder? path visit <;> simp

theorem keySetsAt_foldl_record (visits : List Visit) :
    (visits.foldl record s).keySetsAt path =
      s.keySetsAt path ++ visits.filterMap (Visit.keysUnder? path) := by
  induction visits generalizing s with
  | nil => simp
  | cons visit rest ih =>
    rw [List.foldl_cons, ih, keySetsAt_record, List.filterMap_cons]
    cases Visit.keysUnder? path visit <;> simp

theorem mem_paths_foldl_record (visits : List Visit) :
    path ∈ (visits.foldl record s).paths ↔
      path ∈ s.paths ∨ ∃ visit ∈ visits, visit.path.flat = path := by
  induction visits generalizing s with
  | nil => simp
  | cons visit rest ih => simp [ih, mem_paths_record, or_assoc]

/-- The visits of documents, one document after another. -/
def visitsOf (limit : Nat) (documents : List Value) : List Visit :=
  documents.flatMap fun document => document.visits limit []

theorem visitsOf_cons (document : Value) (rest : List Value) :
    visitsOf limit (document :: rest) = document.visits limit [] ++ visitsOf limit rest := rfl

private theorem foldl_record_counted (visits : List Visit) (count : Nat) :
    visits.foldl record { s with documents := count } =
      { visits.foldl record s with documents := count } := by
  induction visits generalizing s with
  | nil => rfl
  | cons visit rest ih =>
    have step : { s with documents := count }.record visit =
        { s.record visit with documents := count } := by cases visit <;> rfl
    rw [List.foldl_cons, step, ih, List.foldl_cons]

/-- Documents are filed visit by visit; how many there are is counted beside that. -/
theorem ofDocuments_eq (limit : Nat) (documents : List Value) :
    ofDocuments limit documents =
      (visitsOf limit documents).foldl record { documents := documents.length } := by
  have counted (s : Samples) : documents.foldl (add limit) s =
      (visitsOf limit documents).foldl record
        { s with documents := s.documents + documents.length } := by
    induction documents generalizing s with
    | nil => rfl
    | cons document rest ih =>
      have added : { s.add limit document with
            documents := (s.add limit document).documents + rest.length } =
          (document.visits limit []).foldl record
            { s with documents := s.documents + (document :: rest).length } := by
        simp only [add, foldl_record_counted, List.length_cons, Nat.add_assoc, Nat.add_comm 1]
      rw [List.foldl_cons, ih, added, visitsOf_cons, List.foldl_append]
  rw [ofDocuments, counted]
  simp [empty]

theorem valuesAt_ofDocuments : (ofDocuments limit documents).valuesAt path =
    (visitsOf limit documents).filterMap (Visit.valueUnder? path) := by
  rw [ofDocuments_eq, valuesAt_foldl_record]
  rfl

theorem keySetsAt_ofDocuments : (ofDocuments limit documents).keySetsAt path =
    (visitsOf limit documents).filterMap (Visit.keysUnder? path) := by
  rw [ofDocuments_eq, keySetsAt_foldl_record]
  rfl

theorem mem_visitsOf {visit : Visit} : visit ∈ visitsOf limit documents ↔
    ∃ document ∈ documents, ∃ path w, document.Holds path w ∧ path.length ≤ limit + 1 ∧
      visit = Value.visitAt limit path w := by
  simp [visitsOf, Value.mem_visits]

theorem path_visitAt (limit : Nat) (path : Path) (v : Value) :
    (Value.visitAt limit path v).path = path := by
  unfold Value.visitAt
  split
  · rfl
  · cases v <;> rfl

theorem value?_visitAt (limit : Nat) (path : Path) (v : Value) :
    (Value.visitAt limit path v).value? =
      if limit < path.length ∨ v.isMap = false then some v else none := by
  unfold Value.visitAt
  by_cases deep : limit < path.length
  · simp [deep, Visit.value?]
  · cases v <;> simp [deep, Visit.value?, Value.isMap]

theorem keys?_visitAt_eq_some {limit : Nat} {path : Path} {v : Value} {keys : List String} :
    (Value.visitAt limit path v).keys? = some keys ↔ path.length ≤ limit ∧
      ∃ form entries, v = .map form entries ∧ keys = entries.map fun entry => entry.1.alone := by
  unfold Value.visitAt
  by_cases deep : limit < path.length
  · have notShallow : ¬ path.length ≤ limit := by omega
    simp [deep, notShallow, Visit.keys?]
  · have shallow : path.length ≤ limit := by omega
    cases v <;> simp [deep, shallow, Visit.keys?, eq_comm]

theorem mem_paths_iff_visit : path ∈ (ofDocuments limit documents).paths ↔
    ∃ visit ∈ visitsOf limit documents, visit.path.flat = path := by
  have none : path ∉ ({ documents := documents.length } : Samples).paths := by
    simp [paths, Assoc.keys]
  rw [ofDocuments_eq, mem_paths_foldl_record, or_iff_right none]

/-- The paths of samples are the flat forms of the paths into their documents. -/
theorem mem_paths_ofDocuments : path ∈ (ofDocuments limit documents).paths ↔
    ∃ document ∈ documents, ∃ concrete w, document.Holds concrete w ∧
      concrete.length ≤ limit + 1 ∧ concrete.flat = path := by
  simp only [mem_paths_iff_visit, mem_visitsOf]
  constructor
  · rintro ⟨visit, ⟨document, member, concrete, w, holds, bounded, rfl⟩, same⟩
    exact ⟨document, member, concrete, w, holds, bounded, path_visitAt limit concrete w ▸ same⟩
  · rintro ⟨document, member, concrete, w, holds, bounded, same⟩
    exact ⟨_, ⟨document, member, concrete, w, holds, bounded, rfl⟩,
      (path_visitAt limit concrete w).symm ▸ same⟩

/-- The values of samples are what the documents hold there. Maps count only where they are not
entered. -/
theorem mem_valuesAt_ofDocuments {v : Value} : v ∈ (ofDocuments limit documents).valuesAt path ↔
    ∃ document ∈ documents, ∃ concrete, document.Holds concrete v ∧ concrete.flat = path ∧
      (concrete.length ≤ limit ∧ v.isMap = false ∨ concrete.length = limit + 1) := by
  rw [valuesAt_ofDocuments, List.mem_filterMap]
  simp only [mem_visitsOf, Visit.valueUnder?]
  constructor
  · rintro ⟨_, ⟨document, member, concrete, w, holds, bounded, rfl⟩, filed⟩
    rw [path_visitAt, value?_visitAt] at filed
    split at filed
    · rename_i same
      split at filed
      · rename_i counts
        cases filed
        refine ⟨document, member, concrete, holds, same, ?_⟩
        by_cases deep : limit < concrete.length
        · exact .inr (by omega)
        · exact .inl ⟨by omega, counts.resolve_left deep⟩
      · contradiction
    · contradiction
  · rintro ⟨document, member, concrete, holds, same, counts⟩
    refine ⟨_, ⟨document, member, concrete, v, holds, by omega, rfl⟩, ?_⟩
    rw [path_visitAt, value?_visitAt, if_pos same, if_pos]
    rcases counts with ⟨-, notMap⟩ | deep
    · exact .inr notMap
    · exact .inl (by omega)

/-- The key sets of samples are those of the maps that the documents hold there. -/
theorem mem_keySetsAt_ofDocuments {keys : List String} :
    keys ∈ (ofDocuments limit documents).keySetsAt path ↔
      ∃ document ∈ documents, ∃ concrete form entries,
        document.Holds concrete (.map form entries) ∧ concrete.flat = path ∧
          concrete.length ≤ limit ∧ keys = entries.map fun entry => entry.1.alone := by
  rw [keySetsAt_ofDocuments, List.mem_filterMap]
  simp only [mem_visitsOf, Visit.keysUnder?]
  constructor
  · rintro ⟨_, ⟨document, member, concrete, w, holds, bounded, rfl⟩, filed⟩
    rw [path_visitAt] at filed
    split at filed
    · rename_i same
      obtain ⟨shallow, form, entries, rfl, rfl⟩ := keys?_visitAt_eq_some.mp filed
      exact ⟨document, member, concrete, form, entries, holds, same, shallow, rfl⟩
    · contradiction
  · rintro ⟨document, member, concrete, form, entries, holds, same, shallow, rfl⟩
    refine ⟨_, ⟨document, member, concrete, _, holds, by omega, rfl⟩, ?_⟩
    rw [path_visitAt, if_pos same]
    exact keys?_visitAt_eq_some.mpr ⟨shallow, form, entries, rfl, rfl⟩

/-- What a document holds is seen: by its keys if it is a map that is entered, else as a value. -/
theorem seen_of_holds {document w : Value} {concrete : Path} (member : document ∈ documents)
    (holds : document.Holds concrete w) (bounded : concrete.length ≤ limit + 1) :
    w ∈ (ofDocuments limit documents).valuesAt concrete.flat ∨
      ∃ form entries, w = .map form entries ∧
        (entries.map fun entry => entry.1.alone) ∈
          (ofDocuments limit documents).keySetsAt concrete.flat := by
  by_cases shallow : concrete.length ≤ limit
  · cases isMap : w.isMap with
    | false =>
      exact .inl (mem_valuesAt_ofDocuments.mpr
        ⟨document, member, concrete, holds, rfl, .inl ⟨shallow, isMap⟩⟩)
    | true =>
      obtain ⟨form, entries, rfl⟩ : ∃ form entries, w = .map form entries := by
        cases w <;> simp [Value.isMap] at isMap
        exact ⟨_, _, rfl⟩
      exact .inr ⟨form, entries, rfl, mem_keySetsAt_ofDocuments.mpr
        ⟨document, member, concrete, form, entries, holds, rfl, shallow, rfl⟩⟩
  · exact .inl (mem_valuesAt_ofDocuments.mpr
      ⟨document, member, concrete, holds, rfl, .inr (by omega)⟩)

end Samples
end SchemaInference
