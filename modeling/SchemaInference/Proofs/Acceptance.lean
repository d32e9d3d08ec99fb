import Mathlib.Data.List.Basic
import SchemaInference.Schema.Check

/-! What each schema accepts. A check finds issues, the same ones from whatever place it starts,
each as far below that place; a value is accepted when there are none. Every constructor has one
equivalence here, and later proofs speak of acceptance through these alone. -/
namespace SchemaInference

/-- The value that entries hold under a name: the last one, should two keys have one text. -/
def lastUnder (name : String) (entries : List (String × Value)) : Option Value :=
  Assoc.find? name entries.reverse

namespace Issue

/-- An issue as it is seen from the beginning of a route that leads to it. -/
def under (front : Route) (i : Issue) : Issue := { i with route := front ++ i.route }

@[simp] theorem route_under (front : Route) (i : Issue) :
    (i.under front).route = front ++ i.route := rfl

@[simp] theorem cause_under (front : Route) (i : Issue) : (i.under front).cause = i.cause := rfl

@[simp] theorem under_nil : under [] = id := rfl

@[simp] theorem under_under (front rest : Route) (i : Issue) :
    (i.under rest).under front = i.under (front ++ rest) := by
  simp [under]

end Issue

namespace Schema
open Issue

/-- Induction over schemas, with the members of a union and the fields of an object in reach. -/
@[elab_as_elim]
theorem ind {motive : Schema → Prop} (any : motive .any) (scalar : ∀ tag, motive (.scalar tag))
    (enum : ∀ values, motive (.enum values))
    (nullable : ∀ inner, motive inner → motive (.nullable inner))
    (union : ∀ members, (∀ s ∈ members, motive s) → motive (.union members))
    (list : ∀ element, motive element → motive (.list element))
    (record : ∀ pattern rule value, motive value → motive (.record pattern rule value))
    (object : ∀ shape strict, (∀ field ∈ shape, motive field.2.2) → motive (.object shape strict))
    (s : Schema) : motive s :=
  @Schema.rec motive (fun members => ∀ s ∈ members, motive s)
    (fun shape => ∀ field ∈ shape, motive field.2.2) (fun field => motive field.2.2)
    (fun field => motive field.2) any scalar enum nullable union list record object
    (fun _ member => absurd member List.not_mem_nil)
    (fun _ _ head tail => List.forall_mem_cons.mpr ⟨head, tail⟩)
    (fun _ member => absurd member List.not_mem_nil)
    (fun _ _ head tail => List.forall_mem_cons.mpr ⟨head, tail⟩)
    (fun _ _ below => below) (fun _ _ below => below) s

/-! ## What is found, constructor by constructor -/

theorem memberAccepts_eq (route : Route) (members : List Schema) (v : Value) :
    memberAccepts route members v = members.any fun s => (issuesAt route s v).isEmpty := by
  induction members with
  | nil => rfl
  | cons s rest ih =>
    rw [List.any_cons, ← ih]
    rfl

/-- The issues of one field among the entries that are there. -/
def fieldIssue (route : Route) (present : List (String × Value)) (name : String) (optional : Bool)
    (s : Schema) : List Issue :=
  match Assoc.find? name present with
  | some v => issuesAt (route ++ [.key name]) s v
  | none => if optional then [] else [⟨route ++ [.key name], .missing s⟩]

theorem fieldIssues_eq (route : Route) (present : List (String × Value))
    (shape : List (String × Bool × Schema)) :
    fieldIssues route present shape =
      shape.flatMap fun field => fieldIssue route present field.1 field.2.1 field.2.2 := by
  induction shape with
  | nil => rfl
  | cons field rest ih =>
    rw [List.flatMap_cons, ← ih]
    rfl

/-- The issues of one entry of a record. -/
def entryIssues (route : Route) (pattern : Option String) (rule : Option KeyRule) (value : Schema)
    (key : String) (item : Value) : List Issue :=
  match rule with
  | some r =>
    if r.admits key then issuesAt (route ++ [.key key]) value item
    else [⟨route ++ [.key key], .misnamed key pattern r⟩]
  | none => issuesAt (route ++ [.key key]) value item

theorem issuesAt_scalar (route : Route) (tag : String) (v : Value) :
    issuesAt route (.scalar tag) v =
      if v.tag == tag then [] else mismatch (.scalar tag) route v := rfl

theorem issuesAt_enum (route : Route) (values : List String) (v : Value) :
    issuesAt route (.enum values) v =
      if v.text?.any values.contains then [] else mismatch (.enum values) route v := rfl

theorem issuesAt_nullable (route : Route) (inner : Schema) (v : Value) :
    issuesAt route (.nullable inner) v = if v.isNull then [] else issuesAt route inner v := rfl

theorem issuesAt_union (route : Route) (members : List Schema) (v : Value) :
    issuesAt route (.union members) v =
      if members.any fun s => (issuesAt route s v).isEmpty then []
      else mismatch (.union members) route v := by
  rw [← memberAccepts_eq]
  rfl

theorem issuesAt_list (route : Route) (element : Schema) (v : Value) :
    issuesAt route (.list element) v =
      match v.items? with
      | some items => items.zipIdx.flatMap fun (item, i) =>
        issuesAt (route ++ [.item i]) element item
      | none => mismatch (.list element) route v := rfl

theorem issuesAt_record (route : Route) (pattern : Option String) (rule : Option KeyRule)
    (value : Schema) (v : Value) :
    issuesAt route (.record pattern rule value) v =
      match v.entries? with
      | some entries => entries.flatMap fun entry =>
          entryIssues route pattern rule value entry.1 entry.2
      | none => mismatch (.record pattern rule value) route v := rfl

theorem issuesAt_object (route : Route) (shape : List (String × Bool × Schema)) (strict : Bool)
    (v : Value) :
    issuesAt route (.object shape strict) v =
      match v.entries? with
      | some entries =>
        (shape.flatMap fun field =>
          fieldIssue route (Assoc.ofPairs entries) field.1 field.2.1 field.2.2) ++
          if strict then strangers route shape (Assoc.ofPairs entries) else []
      | none => mismatch (.object shape strict) route v := by
  simp only [← fieldIssues_eq]
  rfl

theorem strangers_eq_nil_iff {route : Route} {shape : List (String × Bool × Schema)}
    {present : List (String × Value)} :
    strangers route shape present = [] ↔ ∀ name ∈ Assoc.keys present, name ∈ Assoc.keys shape := by
  simp only [strangers, Assoc.keys, List.map_eq_nil_iff, List.filter_eq_nil_iff, Bool.not_eq_true',
    Bool.not_eq_false, Assoc.contains_iff, List.forall_mem_map]

/-- What is found from a place on is found at the same places from any other, moved there. -/
theorem issuesAt_append (front route : Route) (s : Schema) (v : Value) :
    issuesAt (front ++ route) s v = (issuesAt route s v).map (under front) := by
  induction s using Schema.ind generalizing v route with
  | any => rfl
  | scalar tag =>
    simp only [issuesAt_scalar]
    split <;> rfl
  | enum values =>
    simp only [issuesAt_enum]
    split <;> rfl
  | nullable inner ih =>
    simp only [issuesAt_nullable]
    split
    · rfl
    · exact ih route v
  | union members ih =>
    have same : (members.any fun s => (issuesAt (front ++ route) s v).isEmpty) =
        members.any fun s => (issuesAt route s v).isEmpty := by
      rw [Bool.eq_iff_iff]
      simp only [List.any_eq_true, List.isEmpty_iff]
      refine exists_congr fun s => and_congr_right fun member => ?_
      rw [ih s member route v, List.map_eq_nil_iff]
    simp only [issuesAt_union, same]
    split <;> rfl
  | list element ih =>
    simp only [issuesAt_list]
    cases v.items? with
    | none => rfl
    | some items => simp only [List.map_flatMap, List.append_assoc, ih]
  | record pattern rule value ih =>
    simp only [issuesAt_record]
    cases v.entries? with
    | none => rfl
    | some entries =>
      simp only [List.map_flatMap]
      apply List.flatMap_congr
      intro entry _
      simp only [entryIssues, List.append_assoc, ih]
      cases rule with
      | none => rfl
      | some r => by_cases admitted : r.admits entry.1 = true <;> simp [admitted, under]
  | object shape strict ih =>
    simp only [issuesAt_object]
    cases v.entries? with
    | none => rfl
    | some entries =>
      simp only [List.map_append, List.map_flatMap]
      congr 1
      · apply List.flatMap_congr
        intro field member
        simp only [fieldIssue, List.append_assoc, ih field member]
        split
        · rfl
        · split <;> rfl
      · split
        · simp [strangers, under]
        · rfl

theorem issuesAt_eq (route : Route) (s : Schema) (v : Value) :
    issuesAt route s v = (s.issues v).map (under route) := by
  rw [issues, ← issuesAt_append, List.append_nil]

theorem issuesAt_eq_nil_iff {s : Schema} {v : Value} (route : Route) :
    issuesAt route s v = [] ↔ s.accepts v = true := by
  rw [accepts, List.isEmpty_iff, issuesAt_eq, List.map_eq_nil_iff]

/-! ## What is accepted, constructor by constructor -/

@[simp] theorem accepts_any (v : Value) : any.accepts v = true := rfl

@[simp] theorem accepts_scalar {tag : String} {v : Value} :
    (scalar tag).accepts v = true ↔ v.tag = tag := by
  simp only [accepts, issues, issuesAt_scalar]
  split <;> simp_all [mismatch]

@[simp] theorem accepts_enum {values : List String} {v : Value} :
    (enum values).accepts v = true ↔ ∃ text ∈ values, v = .text text := by
  simp only [accepts, issues, issuesAt_enum]
  cases v <;> simp [Value.text?, mismatch]

@[simp] theorem accepts_nullable {inner : Schema} {v : Value} :
    (nullable inner).accepts v = true ↔ v = .null ∨ inner.accepts v = true := by
  simp only [accepts, issues, issuesAt_nullable]
  cases v <;> simp [Value.isNull]

@[simp] theorem accepts_union {members : List Schema} {v : Value} :
    (union members).accepts v = true ↔ ∃ s ∈ members, s.accepts v = true := by
  simp only [← issuesAt_eq_nil_iff [], issuesAt_union]
  split <;> simp_all [mismatch]

@[simp] theorem accepts_list {element : Schema} {v : Value} :
    (list element).accepts v = true ↔
      ∃ items, v.items? = some items ∧ ∀ item ∈ items, element.accepts item = true := by
  rw [← issuesAt_eq_nil_iff [], issuesAt_list]
  cases v.items? with
  | none => simp [mismatch]
  | some items =>
    simp only [List.flatMap_eq_nil_iff, issuesAt_eq_nil_iff, Option.some.injEq, exists_eq_left']
    constructor
    · intro accepted item member
      obtain ⟨i, bound, rfl⟩ := List.getElem_of_mem member
      exact accepted (items[i], i) (List.mk_mem_zipIdx_iff_getElem?.mpr (by simp [bound]))
    · intro accepted pair member
      exact accepted pair.1 (List.fst_mem_of_mem_zipIdx member)

@[simp] theorem accepts_record {pattern : Option String} {rule : Option KeyRule} {value : Schema}
    {v : Value} :
    (record pattern rule value).accepts v = true ↔
      ∃ entries, v.entries? = some entries ∧ ∀ entry ∈ entries,
        (∀ r, rule = some r → r.admits entry.1 = true) ∧ value.accepts entry.2 = true := by
  rw [← issuesAt_eq_nil_iff [], issuesAt_record]
  cases v.entries? with
  | none => simp [mismatch]
  | some entries =>
    simp only [List.flatMap_eq_nil_iff, Option.some.injEq, exists_eq_left']
    refine forall_congr' fun entry => imp_congr_right fun _ => ?_
    cases rule with
    | none => simp [entryIssues, issuesAt_eq_nil_iff]
    | some r =>
      by_cases admitted : r.admits entry.1 = true <;>
        simp [entryIssues, admitted, issuesAt_eq_nil_iff]

@[simp] theorem accepts_object {shape : List (String × Bool × Schema)} {strict : Bool} {v : Value} :
    (object shape strict).accepts v = true ↔
      ∃ entries, v.entries? = some entries ∧
        (∀ field ∈ shape,
          (∀ item, lastUnder field.1 entries = some item → field.2.2.accepts item = true) ∧
            (lastUnder field.1 entries = none → field.2.1 = true)) ∧
        (strict = true → ∀ name ∈ Assoc.keys entries, name ∈ Assoc.keys shape) := by
  rw [← issuesAt_eq_nil_iff [], issuesAt_object]
  cases v.entries? with
  | none => simp only [mismatch, List.cons_ne_nil, reduceCtorEq, false_and, exists_false]
  | some entries =>
    simp only [List.append_eq_nil_iff, List.flatMap_eq_nil_iff, Option.some.injEq,
      exists_eq_left']
    refine and_congr (forall_congr' fun field => imp_congr_right fun _ => ?_) ?_
    · rw [fieldIssue, Assoc.find?_ofPairs, lastUnder]
      cases Assoc.find? field.1 entries.reverse with
      | some item => simp [issuesAt_eq_nil_iff]
      | none => cases field.2.1 <;> simp
    · cases strict <;> simp [strangers_eq_nil_iff]

end Schema

end SchemaInference
