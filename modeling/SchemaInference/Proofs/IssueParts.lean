import Mathlib.Data.List.Basic
import SchemaInference.Proofs.Acceptance

/-! The issues of a value from those of its parts. What a check finds from a place on is what it
finds from the root on, moved there. So the issues of a list or a map are those of its parts, each
under the step into its part, and where these steps are distinct no two parts share a place. -/
namespace SchemaInference

/-- Neither of two routes goes on from the other. -/
def Route.Apart (a b : Route) : Prop := ¬ a <+: b ∧ ¬ b <+: a

namespace Route
variable {a b : Route} {step step' : RouteStep}

theorem Apart.cons (apart : a.Apart b) : Apart (step :: a) (step :: b) := by
  simpa [Apart] using apart

theorem apart_of_ne (differ : step ≠ step') (a b : Route) : Apart (step :: a) (step' :: b) := by
  simp [Apart, differ, differ.symm]

end Route

namespace Issue

/-- The issues of parts, each part with the step that leads into it. -/
def gather (found : List (RouteStep × List Issue)) : List Issue :=
  found.flatMap fun part => part.2.map (under [part.1])

variable {found : List (RouteStep × List Issue)} {step : RouteStep} {below : List Issue}

theorem mem_gather {i : Issue} :
    i ∈ gather found ↔ ∃ part ∈ found, ∃ inside ∈ part.2, inside.under [part.1] = i := by
  simp [gather]

/-- Issues of parts are apart, if the issues of each part are and no step comes again. -/
theorem apart_gather (distinct : (found.map Prod.fst).Nodup)
    (each : ∀ part ∈ found, part.2.Pairwise fun i j => i.route.Apart j.route) :
    (gather found).Pairwise fun i j => i.route.Apart j.route := by
  rw [List.nodup_iff_pairwise_ne, List.pairwise_map] at distinct
  apply List.pairwise_flatMap.mpr
  constructor
  · intro part member
    rw [List.pairwise_map]
    exact (each part member).imp fun apart => apart.cons
  · refine distinct.imp fun differ i first j second => ?_
    obtain ⟨i, -, rfl⟩ := List.mem_map.mp first
    obtain ⟨j, -, rfl⟩ := List.mem_map.mp second
    exact Route.apart_of_ne differ _ _

/-- What goes on from a step is found in its part alone. -/
theorem filter_map_under (step' : RouteStep) (front : Route) :
    (below.map (under [step'])).filter (fun i => (step :: front).isPrefixOf i.route) =
      if step = step' then
        (below.filter fun i => front.isPrefixOf i.route).map (under [step'])
      else [] := by
  rw [List.filter_map]
  by_cases same : step = step' <;> simp [same, Function.comp_def]

theorem filter_gather_of_not_mem (absent : step ∉ found.map Prod.fst) (front : Route) :
    (gather found).filter (fun i => (step :: front).isPrefixOf i.route) = [] := by
  rw [List.filter_eq_nil_iff]
  intro i among
  obtain ⟨part, member, inside, -, rfl⟩ := mem_gather.mp among
  have differ : step ≠ part.1 := fun same => absent (same ▸ List.mem_map_of_mem member)
  simp [List.isPrefixOf, differ]

/-- If no step comes again, the issues that go on from a step are those of its part. -/
theorem filter_gather (distinct : (found.map Prod.fst).Nodup) (member : (step, below) ∈ found)
    (front : Route) :
    (gather found).filter (fun i => (step :: front).isPrefixOf i.route) =
      (below.filter fun i => front.isPrefixOf i.route).map (under [step]) := by
  induction found with
  | nil => cases member
  | cons part rest ih =>
    obtain ⟨fresh, restDistinct⟩ := List.nodup_cons.mp distinct
    rw [gather, List.flatMap_cons, List.filter_append, filter_map_under]
    rcases List.mem_cons.mp member with rfl | later
    · rw [if_pos rfl]
      exact (congrArg _ (filter_gather_of_not_mem fresh front)).trans (List.append_nil _)
    · have differ : step ≠ part.1 := fun same => fresh (same ▸ List.mem_map_of_mem later)
      rw [if_neg differ, List.nil_append]
      exact ih restDistinct later

end Issue

namespace Schema
open Issue

/-! ## One constructor after the other -/

/-- Whether a schema decides on a value by itself and looks at none of its parts. -/
def settles : Schema → Value → Bool
  | .any, _ | .nullable _, _ => false
  | .scalar _, _ | .enum _, _ | .union _, _ => true
  | .list _, v => v.items?.isNone
  | .record .., v | .object .., v => v.entries?.isNone

/-- A value that is decided on as a whole has one issue, at its own place, or none. -/
theorem issues_of_settles {s : Schema} {v : Value} (settled : s.settles v = true) :
    s.issues v = if s.accepts v then [] else [⟨[], .mismatch s v.kind⟩] := by
  have either : s.issues v = [] ∨ s.issues v = [⟨[], .mismatch s v.kind⟩] := by
    cases s with
    | any | nullable => cases settled
    | scalar | enum | union =>
      simp only [issues, issuesAt_scalar, issuesAt_enum, issuesAt_union]
      split
      · exact .inl rfl
      · exact .inr rfl
    | list | record | object =>
      have none := Option.isNone_iff_eq_none.mp settled
      simp only [issues, issuesAt_list, issuesAt_record, issuesAt_object, none]
      exact .inr rfl
  split
  · rename_i accepted
    exact (issuesAt_eq_nil_iff []).mpr accepted
  · rename_i refused
    exact either.resolve_left fun none => refused ((issuesAt_eq_nil_iff []).mp none)

theorem issues_nullable {inner : Schema} {v : Value} :
    (nullable inner).issues v = if v.isNull then [] else inner.issues v :=
  issuesAt_nullable [] inner v

theorem issues_list {element : Schema} {v : Value} {items : List Value}
    (isList : v.items? = some items) :
    (list element).issues v =
      gather (items.zipIdx.map fun (item, i) => (.item i, element.issues item)) := by
  simp only [issues, issuesAt_list, isList, gather, List.flatMap_map, List.nil_append]
  apply List.flatMap_congr
  intro pair _
  exact issuesAt_eq _ _ _

/-- The issues of an entry of a record, seen from its key on. -/
def entryPart (pattern : Option String) (rule : Option KeyRule) (value : Schema)
    (entry : String × Value) : List Issue :=
  match rule with
  | some r =>
    if r.admits entry.1 then value.issues entry.2 else [⟨[], .misnamed entry.1 pattern r⟩]
  | none => value.issues entry.2

theorem issues_record {pattern : Option String} {rule : Option KeyRule} {value : Schema} {v : Value}
    {entries : List (String × Value)} (isMap : v.entries? = some entries) :
    (record pattern rule value).issues v =
      gather (entries.map fun entry => (.key entry.1, entryPart pattern rule value entry)) := by
  simp only [issues, issuesAt_record, isMap, gather, List.flatMap_map]
  apply List.flatMap_congr
  intro entry _
  simp only [entryIssues, entryPart, List.nil_append, issuesAt_eq]
  cases rule with
  | none => rfl
  | some r => by_cases admitted : r.admits entry.1 = true <;> simp [admitted, under]

/-- The issues of a field among entries, seen from its key on. -/
def fieldPart (entries : List (String × Value)) (field : String × Bool × Schema) : List Issue :=
  match Assoc.find? field.1 entries with
  | some item => field.2.2.issues item
  | none => if field.2.1 then [] else [⟨[], .missing field.2.2⟩]

/-- The entries that no field declares. -/
def undeclared (shape : List (String × Bool × Schema)) (entries : List (String × Value)) :
    List (String × Value) :=
  entries.filter fun entry => !Assoc.contains entry.1 shape

/-- The issues of the parts of a map that an object checks. -/
def objectParts (shape : List (String × Bool × Schema)) (strict : Bool)
    (entries : List (String × Value)) : List (RouteStep × List Issue) :=
  shape.map (fun field => (.key field.1, fieldPart entries field)) ++
    if strict then (undeclared shape entries).map fun entry =>
      (.key entry.1, [⟨[], .unrecognized entry.1 entry.2.kind⟩])
    else []

theorem issues_object {shape : List (String × Bool × Schema)} {strict : Bool} {v : Value}
    {entries : List (String × Value)} (isMap : v.entries? = some entries)
    (distinct : (Assoc.keys entries).Nodup) :
    (object shape strict).issues v = gather (objectParts shape strict entries) := by
  simp only [issues, issuesAt_object, isMap, Assoc.ofPairs_of_nodup distinct, gather,
    objectParts, List.flatMap_append, List.flatMap_map]
  congr 1
  · apply List.flatMap_congr
    intro field _
    simp only [fieldIssue, fieldPart, List.nil_append, issuesAt_eq]
    cases Assoc.find? field.1 entries with
    | some item => rfl
    | none => cases field.2.1 <;> rfl
  · cases strict with
    | false => rfl
    | true => simp [strangers, undeclared, under, List.flatMap_map, ← List.map_eq_flatMap]

end Schema
end SchemaInference
