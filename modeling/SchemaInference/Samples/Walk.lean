import SchemaInference.Samples

/-!
Collecting samples with a stack. What is still to be visited waits on a stack, the next value on
top, so that the depth of a document is bounded by memory alone. A value that is entered puts its
children in its place, the first of them on top. A map with a key that cannot be written ends it.
-/

namespace SchemaInference

/-- The values one step below a value with the paths to them, in order. -/
def Value.children (path : Path) : Value → List (Path × Value)
  | .map _ entries => entries.map fun entry => (path ++ [.key entry.1.alone], entry.2)
  | .list _ items => items.zipIdx.map fun item => (path ++ [.item item.2], item.1)
  | _ => []

/-- How many parts values have, all together. -/
noncomputable def Value.weight (placed : List (Path × Value)) : Nat :=
  placed.foldr (fun pair total => sizeOf pair.2 + total) 0

theorem Value.weight_cons (pair : Path × Value) (rest : List (Path × Value)) :
    weight (pair :: rest) = sizeOf pair.2 + weight rest := rfl

theorem Value.weight_append (placed rest : List (Path × Value)) :
    weight (placed ++ rest) = weight placed + weight rest := by
  induction placed with
  | nil => exact (Nat.zero_add _).symm
  | cons pair others ih => rw [List.cons_append, weight_cons, weight_cons, ih, Nat.add_assoc]

/-- Children have fewer parts, all together, than the value that they stand in. -/
theorem Value.weight_children_lt (path : Path) (v : Value) :
    weight (v.children path) < sizeOf v := by
  have ofItems (items : List Value) (position : Nat) :
      weight ((items.zipIdx position).map fun item => (path ++ [.item item.2], item.1)) <
        sizeOf items := by
    induction items generalizing position with
    | nil => simp [weight]
    | cons v rest ih =>
      have later := ih (position + 1)
      simp only [List.zipIdx_cons, List.map_cons, weight_cons, List.cons.sizeOf_spec]
      omega
  have ofEntries (entries : List (Value × Value)) :
      weight (entries.map fun entry => (path ++ [.key entry.1.alone], entry.2)) <
        sizeOf entries := by
    induction entries with
    | nil => simp [weight]
    | cons entry rest ih =>
      obtain ⟨key, v⟩ := entry
      simp only [List.map_cons, weight_cons, List.cons.sizeOf_spec, Prod.mk.sizeOf_spec]
      omega
  cases v with
  | map form entries =>
    have below := ofEntries entries
    simp only [children, map.sizeOf_spec]
    omega
  | list form items =>
    have below := ofItems items 0
    simp only [children, list.sizeOf_spec]
    omega
  | _ => simp +arith [children, weight]

/-- What is met where a value is entered: the texts of the keys of a map, any other value itself. -/
def Visit.entering (path : Path) : Value → Visit
  | .map _ entries => .map path (entries.map fun entry => entry.1.alone)
  | v => .sample path v

/-- The steps of writing the keys of a map. -/
def Value.keySteps : Value → List Step
  | .map _ entries => entries.flatMap fun entry => entry.1.aloneSteps 0
  | _ => []

namespace Samples

/-- Files what waits on a stack and everything below it. -/
def walk (limit : Nat) (room : Room) (s : Samples) :
    (stack : List (Path × Value)) → Except Refusal Samples
  | [] => .ok s
  | (path, v) :: waiting =>
    if limit < path.length then walk limit room (s.record (.cut path v)) waiting
    else
      match room.refusal? v.keySteps with
      | some cause => .error cause
      | none => walk limit room (s.record (.entering path v)) (v.children path ++ waiting)
termination_by stack => Value.weight stack
decreasing_by
  · have below := v.weight_children_lt path
    simp only [Value.weight_cons]
    omega
  · have below := v.weight_children_lt path
    simp only [Value.weight_append, Value.weight_cons]
    omega

/-- Adds the samples of a document. -/
def collect (limit : Nat) (s : Samples) (document : Value) (room : Room := none) :
    Except Refusal Samples :=
  walk limit room { s with documents := s.documents + 1 } [([], document)]

/-- The samples of some documents, collected one document after another. -/
def collectAll (limit : Nat) (documents : List Value) (room : Room := none) :
    Except Refusal Samples :=
  documents.foldlM (fun s document => collect limit s document room) empty

end Samples

end SchemaInference
