import SchemaInference.Label
import SchemaInference.PathTree
import SchemaInference.Structure
import SchemaInference.Value.Same

/-!
When the maps at a position read as an open record: their keys share a strong pattern, all values
under them are leaves of kinds that go together, and the values are not all the same.
-/

namespace SchemaInference

/-- The tags that may stand together in a record. -/
def recordTags : List String := ["string", "number", "boolean", "object"]

/-- Whether values with these tags go together: they have one tag, or only tags that may mix. -/
def goTogether (tags : TagSet) : Bool :=
  tags.toList.length ≤ 1 || tags.toList.all recordTags.contains

namespace PathTree

/-- The last steps to the named children of a node. -/
def childSteps (n : PathNode) : List Segment := n.named.filterMap List.getLast?

/-- The nodes of the named children. -/
def childNodes (t : PathTree) (n : PathNode) : List PathNode := n.named.filterMap t.node?

/-- The pattern of the keys at a node, if there are enough keys and it makes a record. -/
def recordPattern? (c : Config) (n : PathNode) : Option KeyPattern :=
  if n.named.length < c.recordMinKeys then none
  else (KeyPattern.ofKeys (childSteps n)).filter fun p => p == .prefixed || p == .snakeCase

/-- The record that the maps at a node make, if they make one. -/
def record? (t : PathTree) (c : Config) (n : PathNode) : Option Structure :=
  match recordPattern? c n with
  | none => none
  | some pattern =>
    let children := t.childNodes n
    let values := children.flatMap PathNode.values
    let tags := TagSet.ofList ((values.filter fun v => !v.isNull).map Value.tag)
    if children.all PathNode.isLeaf && goTogether tags && Value.holdsTwo values then
      let stem :=
        if pattern = .prefixed then KeyPattern.sharedStem ((childSteps n).map Segment.text)
        else none
      some (.record {} pattern stem (Label.render tags.toList none (values.any Value.isNull) false))
    else none

/-- The steps of telling the values apart in the decision on a record, after so many calls. The
children are looked at in order, and none after the first that is no leaf. -/
def decisionSteps (t : PathTree) (c : Config) (height : Nat) (n : PathNode) : List Step :=
  if (recordPattern? c n).isSome then
    ((t.childNodes n).takeWhile PathNode.isLeaf).flatMap fun child =>
      child.values.flatMap (Value.tellingSteps height)
  else []

end PathTree

end SchemaInference
