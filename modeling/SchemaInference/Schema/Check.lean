import SchemaInference.Schema.Issue
import SchemaInference.Value.Written

/-!
Checking a document against a schema. Every part of the document that the schema reaches is checked,
and all issues are found, each at its own place. A value that no member of a union accepts is one
issue, whatever each member has to say of it. A check that comes to a key rule whose text cannot be
read stops there. Keys count here by their texts, as if all of them could be written.
-/

namespace SchemaInference

namespace Value

/-- The entries of a plain map with the texts of their keys. -/
def entries? : Value → Option (List (String × Value))
  | .map _ entries => some (entries.map fun (key, v) => (key.alone, v))
  | _ => none

end Value

namespace Schema

/-- The issue that a value is not what a schema accepts. -/
def mismatch (s : Schema) (route : Route) (v : Value) : List Issue := [⟨route, .mismatch s v.kind⟩]

/-- The issues of keys that no field of a shape has. -/
def strangers (route : Route) (shape : List (String × Bool × Schema))
    (present : List (String × Value)) : List Issue :=
  (present.filter fun (name, _) => !Assoc.contains name shape).map fun (name, v) =>
    ⟨route ++ [.key name], .unrecognized name v.kind⟩

mutual

/-- The issues of a value at a place. -/
def issuesAt (route : Route) : Schema → Value → List Issue
  | .any, _ => []
  | .scalar tag, v => if v.tag == tag then [] else mismatch (.scalar tag) route v
  | .enum values, v =>
    if v.text?.any values.contains then [] else mismatch (.enum values) route v
  | .nullable inner, v => if v.isNull then [] else issuesAt route inner v
  | .union members, v =>
    if memberAccepts route members v then [] else mismatch (.union members) route v
  | .list element, v =>
    match v.items? with
    | some items => items.zipIdx.flatMap fun (item, i) => issuesAt (route ++ [.item i]) element item
    | none => mismatch (.list element) route v
  | .record pattern rule value, v =>
    match v.entries? with
    | some entries => entries.flatMap fun (key, item) =>
        match rule with
        | some r =>
          if r.admits key then issuesAt (route ++ [.key key]) value item
          else [⟨route ++ [.key key], .misnamed key pattern r⟩]
        | none => issuesAt (route ++ [.key key]) value item
    | none => mismatch (.record pattern rule value) route v
  | .object shape strict, v =>
    match v.entries? with
    | some entries =>
      let present := Assoc.ofPairs entries
      fieldIssues route present shape ++ if strict then strangers route shape present else []
    | none => mismatch (.object shape strict) route v

/-- Whether a member of a union finds no issue in a value. -/
def memberAccepts (route : Route) : List Schema → Value → Bool
  | [], _ => false
  | s :: rest, v => (issuesAt route s v).isEmpty || memberAccepts route rest v

/-- The issues of the fields of an object, among these entries. -/
def fieldIssues (route : Route) (present : List (String × Value)) :
    List (String × Bool × Schema) → List Issue
  | [] => []
  | (name, optional, s) :: rest =>
    (match Assoc.find? name present with
      | some v => issuesAt (route ++ [.key name]) s v
      | none => if optional then [] else [⟨route ++ [.key name], .missing s⟩])
    ++ fieldIssues route present rest

end

/-- The issues of a document. -/
def issues (s : Schema) (document : Value) : List Issue := s.issuesAt [] document

/-- Whether a document has no issues. -/
def accepts (s : Schema) (document : Value) : Bool := (s.issues document).isEmpty

mutual

/-- The first key rule that cannot be read of those that a check of a value comes to. -/
def unreadable? : Schema → Value → Option KeyRule
  | .any, _ | .scalar _, _ | .enum _, _ => none
  | .nullable inner, v => if v.isNull then none else inner.unreadable? v
  | .union members, v => unreadableMember? members v
  | .list element, v => (v.items?.getD []).findSome? fun item => element.unreadable? item
  | .record _ rule value, v => (v.entries?.getD []).findSome? fun (key, item) =>
      match rule with
      | some r =>
        if r.fault?.isSome then some r
        else if r.admits key then value.unreadable? item
        else none
      | none => value.unreadable? item
  | .object shape _, v => unreadableField? (Assoc.ofPairs (v.entries?.getD [])) shape

/-- Members of a union are tried up to the first that accepts the value. -/
def unreadableMember? : List Schema → Value → Option KeyRule
  | [], _ => none
  | s :: rest, v =>
    match s.unreadable? v with
    | some r => some r
    | none => if s.accepts v then none else unreadableMember? rest v

/-- Fields of an object are checked in the order of its shape. -/
def unreadableField? (present : List (String × Value)) :
    List (String × Bool × Schema) → Option KeyRule
  | [] => none
  | (name, _, s) :: rest =>
    match (Assoc.find? name present).bind fun v => s.unreadable? v with
    | some r => some r
    | none => unreadableField? present rest

end

/-- The check of a document: its issues, or the key rule that the check stops at. -/
def check (s : Schema) (document : Value) : Except KeyRule (List Issue) :=
  match s.unreadable? document with
  | some r => .error r
  | none => .ok (s.issues document)

end Schema

end SchemaInference
