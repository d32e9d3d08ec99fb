/-!
Maps as lists of pairs that remember the order in which their keys came. Changing the value of a
key that is there leaves its place; a new key goes to the end.
-/

namespace SchemaInference.Assoc

variable {α : Type u} {β : Type v} [DecidableEq α]

/-- The value of a key. -/
def find? (key : α) : List (α × β) → Option β
  | [] => none
  | (key', value) :: rest => if key' = key then some value else find? key rest

/-- Gives a key the value that `change` makes of the one it has. -/
def update (key : α) (change : Option β → β) : List (α × β) → List (α × β)
  | [] => [(key, change none)]
  | (key', value) :: rest =>
    if key' = key then (key', change (some value)) :: rest
    else (key', value) :: update key change rest

/-- Gives a key a value, whatever it had. -/
def insert (key : α) (value : β) (pairs : List (α × β)) : List (α × β) :=
  update key (fun _ => value) pairs

/-- The pairs with each key once, at its first place and with its last value. -/
def ofPairs (pairs : List (α × β)) : List (α × β) :=
  pairs.foldl (fun done (key, value) => insert key value done) []

/-- The keys in the order of their pairs. -/
def keys (pairs : List (α × β)) : List α := pairs.map Prod.fst

/-- Whether a key has a value. -/
def contains (key : α) (pairs : List (α × β)) : Bool := (find? key pairs).isSome

@[simp] theorem find?_nil (key : α) : find? key ([] : List (α × β)) = none := rfl

theorem find?_cons (key key' : α) (value : β) (rest : List (α × β)) :
    find? key ((key', value) :: rest) = if key' = key then some value else find? key rest := rfl

@[simp] theorem find?_update_self (key : α) (change : Option β → β) (pairs : List (α × β)) :
    find? key (update key change pairs) = some (change (find? key pairs)) := by
  induction pairs with
  | nil => simp [update, find?]
  | cons pair rest ih =>
    obtain ⟨key', value⟩ := pair
    by_cases same : key' = key <;> simp [update, find?, same, ih]

theorem find?_update_of_ne {key other : α} (apart : other ≠ key) (change : Option β → β)
    (pairs : List (α × β)) : find? other (update key change pairs) = find? other pairs := by
  induction pairs with
  | nil => simp [update, find?, Ne.symm apart]
  | cons pair rest ih =>
    obtain ⟨key', value⟩ := pair
    by_cases same : key' = key
    · subst same; simp [update, find?, Ne.symm apart]
    · simp [update, find?, same, ih]

theorem keys_update (key : α) (change : Option β → β) (pairs : List (α × β)) :
    keys (update key change pairs) =
      if key ∈ keys pairs then keys pairs else keys pairs ++ [key] := by
  induction pairs with
  | nil => simp [update, keys]
  | cons pair rest ih =>
    obtain ⟨key', value⟩ := pair
    by_cases same : key' = key
    · simp [update, keys, same]
    · simp only [keys] at ih
      simp only [update, same, if_false, keys, List.map_cons, ih, List.mem_cons, Ne.symm same,
        false_or]
      by_cases there : key ∈ rest.map Prod.fst <;> simp [there]

theorem find?_isSome_iff {key : α} {pairs : List (α × β)} :
    (find? key pairs).isSome = true ↔ key ∈ keys pairs := by
  induction pairs with
  | nil => simp [find?, keys]
  | cons pair rest ih =>
    obtain ⟨key', value⟩ := pair
    by_cases same : key' = key
    · simp [find?, keys, same]
    · simp only [keys] at ih
      simp only [find?, same, if_false, ih, keys, List.map_cons, List.mem_cons, Ne.symm same,
        false_or]

theorem mem_of_find? {key : α} {value : β} {pairs : List (α × β)}
    (found : find? key pairs = some value) : (key, value) ∈ pairs := by
  induction pairs with
  | nil => cases found
  | cons pair rest ih =>
    obtain ⟨key', value'⟩ := pair
    rw [find?_cons] at found
    split at found
    · rename_i same
      cases found
      exact same ▸ List.mem_cons_self
    · exact List.mem_cons_of_mem _ (ih found)

omit [DecidableEq α] in
theorem mem_keys_of_mem {key : α} {value : β} {pairs : List (α × β)}
    (member : (key, value) ∈ pairs) : key ∈ keys pairs :=
  List.mem_map.mpr ⟨(key, value), member, rfl⟩

theorem find?_of_nodup {key : α} {value : β} {pairs : List (α × β)}
    (distinct : (keys pairs).Nodup) (member : (key, value) ∈ pairs) :
    find? key pairs = some value := by
  induction pairs with
  | nil => cases member
  | cons pair rest ih =>
    obtain ⟨key', value'⟩ := pair
    obtain ⟨fresh, restDistinct⟩ := List.nodup_cons.mp distinct
    rcases List.mem_cons.mp member with same | member
    · cases same
      simp [find?_cons]
    · have apart : key' ≠ key := by
        rintro rfl
        exact fresh (mem_keys_of_mem member)
      simpa [find?_cons, apart] using ih restDistinct member

theorem contains_iff {key : α} {pairs : List (α × β)} :
    contains key pairs = true ↔ key ∈ keys pairs := find?_isSome_iff

theorem find?_eq_none_iff {key : α} {pairs : List (α × β)} :
    find? key pairs = none ↔ key ∉ keys pairs := by
  rw [← find?_isSome_iff]
  cases find? key pairs <;> simp

theorem find?_append (key : α) (first second : List (α × β)) :
    find? key (first ++ second) = (find? key first).or (find? key second) := by
  induction first with
  | nil => simp
  | cons pair rest ih =>
    simp only [List.cons_append, find?, ih]
    split <;> simp

/-- Changing values by their keys changes what is found. -/
theorem find?_map {γ : Type w} (change : α → β → γ) (key : α) (pairs : List (α × β)) :
    find? key (pairs.map fun pair => (pair.1, change pair.1 pair.2)) =
      (find? key pairs).map (change key) := by
  induction pairs with
  | nil => rfl
  | cons pair rest ih =>
    obtain ⟨key', value⟩ := pair
    by_cases same : key' = key
    · subst same
      simp [find?_cons]
    · simpa [find?_cons, same] using ih

/-- Keys with a value each are found with theirs. -/
theorem find?_map_of_mem {key : α} {keys : List α} (change : α → β) (there : key ∈ keys) :
    find? key (keys.map fun key => (key, change key)) = some (change key) := by
  induction keys with
  | nil => cases there
  | cons first rest ih =>
    rw [List.map_cons, find?_cons]
    split
    · rename_i same
      rw [same]
    · rename_i apart
      exact ih ((List.mem_cons.mp there).resolve_left (Ne.symm apart))

/-- A key that comes again takes its last value. -/
theorem find?_ofPairs (key : α) (pairs : List (α × β)) :
    find? key (ofPairs pairs) = find? key pairs.reverse := by
  have filled (done : List (α × β)) :
      find? key (pairs.foldl (fun done (key, value) => insert key value done) done) =
        (find? key pairs.reverse).or (find? key done) := by
    induction pairs generalizing done with
    | nil => simp
    | cons pair rest ih =>
      obtain ⟨key', value⟩ := pair
      rw [List.foldl_cons, ih, List.reverse_cons, find?_append, Option.or_assoc]
      congr 1
      by_cases same : key' = key
      · subst same
        simp [insert, find?_cons]
      · simp [insert, find?_update_of_ne (Ne.symm same), find?_cons, same]
  simpa [ofPairs] using filled []

@[simp] theorem mem_keys_ofPairs {key : α} {pairs : List (α × β)} :
    key ∈ keys (ofPairs pairs) ↔ key ∈ keys pairs := by
  rw [← find?_isSome_iff, find?_ofPairs, find?_isSome_iff]
  simp [keys]

/-- A new key goes to the end. -/
theorem insert_of_not_mem {key : α} {value : β} {pairs : List (α × β)}
    (fresh : key ∉ keys pairs) : insert key value pairs = pairs ++ [(key, value)] := by
  induction pairs with
  | nil => rfl
  | cons pair rest ih =>
    obtain ⟨key', value'⟩ := pair
    obtain ⟨apart, restFresh⟩ := not_or.mp (mt List.mem_cons.mpr fresh)
    rw [insert, update, if_neg (Ne.symm apart), List.cons_append, ← ih restFresh]
    rfl

/-- Pairs in which no key comes again are left as they are. -/
theorem ofPairs_of_nodup {pairs : List (α × β)} (distinct : (keys pairs).Nodup) :
    ofPairs pairs = pairs := by
  have filled (done : List (α × β)) (apart : (keys (done ++ pairs)).Nodup) :
      pairs.foldl (fun done (key, value) => insert key value done) done = done ++ pairs := by
    induction pairs generalizing done with
    | nil => simp
    | cons pair rest ih =>
      obtain ⟨key, value⟩ := pair
      have fresh : key ∉ keys done := by
        intro there
        rw [keys, List.map_append, List.nodup_append] at apart
        exact apart.2.2 key there key List.mem_cons_self rfl
      have moved : done ++ (key, value) :: rest = done ++ [(key, value)] ++ rest := by simp
      rw [moved] at apart ⊢
      show rest.foldl _ (insert key value done) = _
      rw [insert_of_not_mem fresh]
      exact ih (List.nodup_cons.mp distinct).2 _ apart
  exact filled [] distinct

end SchemaInference.Assoc
