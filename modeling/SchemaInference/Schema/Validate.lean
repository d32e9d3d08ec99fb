import SchemaInference.Schema.Check
import SchemaInference.Stack

/-!
Checking a document step by step. A check stops at a key that cannot be written, at a key rule whose
text cannot be read, and where schemas or keys are nested too deep for it; the steps of the check,
in order, say what comes first. If none of them stops it, it finds the issues.
-/

namespace SchemaInference

namespace Schema

/-- A step on the way of a check: one of writing keys and labels and of nested checks, or a key rule
that is read. -/
inductive CheckStep where
  | plain (step : Step)
  | rule (r : KeyRule)

/-- The step of saying that a value is not what a schema accepts, after so many calls. It takes two
calls to come to the label. -/
def mismatchStep (height : Nat) (s : Schema) : CheckStep :=
  .plain (.call (height + 2 + s.labelCalls))

/-- The steps of writing a key, after so many calls. -/
def keySteps (height : Nat) (key : Value) : List CheckStep := (key.aloneSteps height).map .plain

mutual

/-- The steps of checking a value, after so many calls. Keys of a map are written as they come for a
record, all of them first and one call further in for an object. -/
def stepsAt (height : Nat) : Schema → Value → List CheckStep
  | .any, _ => [.plain (.call (height + 1))]
  | .scalar tag, v =>
    .plain (.call (height + 1)) :: if v.tag == tag then [] else [mismatchStep height (.scalar tag)]
  | .enum values, v =>
    .plain (.call (height + 1)) ::
      if v.text?.any values.contains then [] else [mismatchStep height (.enum values)]
  | .nullable inner, v =>
    .plain (.call (height + 1)) :: if v.isNull then [] else stepsAt (height + 1) inner v
  | .union members, v =>
    .plain (.call (height + 1)) :: (memberSteps (height + 1) members v
      ++ if memberAccepts [] members v then [] else [mismatchStep height (.union members)])
  | .list element, v =>
    .plain (.call (height + 1)) :: match v with
      | .list _ items => items.flatMap (stepsAt (height + 1) element)
      | _ => [mismatchStep height (.list element)]
  | .record pattern rule value, v =>
    .plain (.call (height + 1)) :: match v with
      | .map _ entries => entries.flatMap fun (key, item) =>
        keySteps (height + 1) key ++ match rule with
          | some r => .rule r :: if r.admits key.alone then stepsAt (height + 1) value item else []
          | none => stepsAt (height + 1) value item
      | _ => [mismatchStep height (.record pattern rule value)]
  | .object shape strict, v =>
    .plain (.call (height + 1)) :: match v with
      | .map _ entries =>
        entries.flatMap (fun (key, _) => keySteps (height + 2) key)
          ++ fieldSteps (height + 1)
            (Assoc.ofPairs (entries.map fun (key, item) => (key.alone, item))) shape
      | _ => [mismatchStep height (.object shape strict)]

/-- Members of a union are tried up to the first that accepts the value. -/
def memberSteps (height : Nat) : List Schema → Value → List CheckStep
  | [], _ => []
  | s :: rest, v => stepsAt height s v ++ if s.accepts v then [] else memberSteps height rest v

/-- Fields of an object are checked in the order of its shape. -/
def fieldSteps (height : Nat) (present : List (String × Value)) :
    List (String × Bool × Schema) → List CheckStep
  | [] => []
  | (name, optional, s) :: rest =>
    (match Assoc.find? name present with
      | some v => stepsAt height s v
      | none => if optional then [] else [.plain (.call (height + s.labelCalls))])
    ++ fieldSteps height present rest

end

/-- Why a check stops. -/
inductive CheckFault where
  | rule (r : KeyRule)
  | refused (cause : Refusal)

/-- The fault that a step of a check ends in, if it does. -/
def CheckStep.fault? (room : Room) : CheckStep → Option CheckFault
  | .plain step => (step.refusal? room).map .refused
  | .rule r => if r.fault?.isSome then some (.rule r) else none

/-- The check of a document: its issues, or why it stops. -/
def validate (s : Schema) (document : Value) (room : Room := none) :
    Except CheckFault (List Issue) :=
  match (s.stepsAt 0 document).findSome? (CheckStep.fault? room) with
  | some fault => .error fault
  | none => .ok (s.issues document)

end Schema

end SchemaInference
