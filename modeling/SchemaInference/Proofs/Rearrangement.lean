import Mathlib.Data.List.Forall2
import SchemaInference.Proofs.Acceptance

/-! Schemas that are equal up to the order of fields. An object accepts the same maps in whatever
order it lists its fields, so such schemas accept the same values. -/
namespace SchemaInference
namespace Schema

/-- Schemas that differ only in the order in which objects, at any depth, list their fields. -/
inductive Rearranged : Schema → Schema → Prop where
  | refl (s : Schema) : Rearranged s s
  | trans {s s' s'' : Schema} (first : Rearranged s s') (second : Rearranged s' s'') :
      Rearranged s s''
  | fields {shape shape' : List (String × Bool × Schema)} (strict : Bool)
      (perm : shape.Perm shape') : Rearranged (.object shape strict) (.object shape' strict)
  | field (before after : List (String × Bool × Schema)) (name : String) (optional strict : Bool)
      {s s' : Schema} (below : Rearranged s s') :
      Rearranged (.object (before ++ (name, optional, s) :: after) strict)
        (.object (before ++ (name, optional, s') :: after) strict)
  | member (before after : List Schema) {s s' : Schema} (below : Rearranged s s') :
      Rearranged (.union (before ++ s :: after)) (.union (before ++ s' :: after))
  | nullable {inner inner' : Schema} (below : Rearranged inner inner') :
      Rearranged (.nullable inner) (.nullable inner')
  | list {element element' : Schema} (below : Rearranged element element') :
      Rearranged (.list element) (.list element')
  | record (pattern : Option String) (rule : Option KeyRule) {value value' : Schema}
      (below : Rearranged value value') :
      Rearranged (.record pattern rule value) (.record pattern rule value')

/-- Schemas that are equal up to the order of fields accept the same values. -/
theorem Rearranged.accepts_iff {s s' : Schema} (rearranged : s.Rearranged s') (v : Value) :
    s.accepts v = true ↔ s'.accepts v = true := by
  induction rearranged generalizing v with
  | refl s => exact Iff.rfl
  | trans _ _ first second => exact (first v).trans (second v)
  | fields strict perm =>
    have names (name : String) : name ∈ Assoc.keys _ ↔ name ∈ Assoc.keys _ :=
      (perm.map Prod.fst).mem_iff
    simp only [accepts_object, perm.mem_iff, names]
  | field before after name optional strict _ ih =>
    have names (s : Schema) : Assoc.keys (before ++ (name, optional, s) :: after) =
        Assoc.keys before ++ name :: Assoc.keys after := by
      simp [Assoc.keys]
    simp only [accepts_object, names, List.forall_mem_append, List.forall_mem_cons, ih]
  | member before after _ ih =>
    simp only [accepts_union, List.mem_append, List.mem_cons, or_and_right, exists_or,
      exists_eq_left, ih]
  | nullable _ ih => rw [accepts_nullable, accepts_nullable, ih]
  | list _ ih => simp only [accepts_list, ih]
  | record pattern rule _ ih => simp only [accepts_record, ih]

theorem union_rearranged (before : List Schema) {members members' : List Schema}
    (each : List.Forall₂ Rearranged members members') :
    Rearranged (.union (before ++ members)) (.union (before ++ members')) := by
  induction each generalizing before with
  | nil => exact .refl _
  | @cons s s' rest rest' head _ ih =>
    have later := ih (before ++ [s'])
    rw [List.append_assoc, List.append_assoc] at later
    exact .trans (.member before rest head) later

theorem ofAlternatives_rearranged {members members' : List Schema}
    (each : List.Forall₂ Rearranged members members') :
    Rearranged (ofAlternatives members) (ofAlternatives members') := by
  cases each with
  | nil => exact .refl _
  | cons head tail =>
    cases tail with
    | nil => exact head
    | cons second rest => exact union_rearranged [] (.cons head (.cons second rest))

/-- Objects with the same names, each with schemas that are equal up to the order of fields. -/
theorem object_rearranged {names names' : List String} (perm : names.Perm names')
    {optional : String → Bool} {schema schema' : String → Schema} (strict : Bool)
    (each : ∀ name ∈ names, (schema name).Rearranged (schema' name)) :
    Rearranged (.object (names.map fun name => (name, optional name, schema name)) strict)
      (.object (names'.map fun name => (name, optional name, schema' name)) strict) := by
  have below (before : List (String × Bool × Schema)) :
      Rearranged
        (.object (before ++ names.map fun name => (name, optional name, schema name)) strict)
        (.object (before ++ names.map fun name => (name, optional name, schema' name)) strict) := by
    clear perm
    induction names generalizing before with
    | nil => exact .refl _
    | cons name rest ih =>
      obtain ⟨head, tail⟩ := List.forall_mem_cons.mp each
      have later := ih tail (before ++ [(name, optional name, schema' name)])
      rw [List.append_assoc, List.append_assoc] at later
      exact .trans (.field before _ name _ strict head) later
  exact .trans (below []) (.fields strict (perm.map _))

end Schema
end SchemaInference
