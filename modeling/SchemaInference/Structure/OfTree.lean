import SchemaInference.Structure.Record
import SchemaInference.Value.Nesting

/-!
The structure of a tree of samples. A position takes a scalar, an array and a map option, as far as
such values were seen there. `levels` bounds how far down positions are looked at; below, anything
is expected.
-/

namespace SchemaInference

namespace PathNode

/-- The scalars at a node as an option, if there are any. -/
def scalarOption (n : PathNode) : List Structure :=
  if n.scalars.isEmpty then []
  else [.primitive {} (Label.render (n.scalars.map Value.tag) none false false)]

/-- The nestings of the lists at a node. -/
def nestings (n : PathNode) : List Nesting :=
  n.lists.filterMap fun v => v.items?.map Nesting.ofItems

/-- The depth of the deepest list at a node. -/
def arrayDepth (n : PathNode) : Nat := n.nestings.foldl (fun deepest s => max deepest s.depth) 0

/-- The tags of all leaves of the lists at a node. -/
def itemTags (n : PathNode) : TagSet := .ofList (n.nestings.flatMap Nesting.tags)

/-- Whether some map at a node lacks a key. -/
def lacks (n : PathNode) (name : String) : Bool := n.keySets.any fun keys => !keys.contains name

end PathNode

/-- A position that accepts anything. -/
def Structure.anything : Structure := .primitive {} "any"

/-- The shape of a position where all of these options were seen. -/
def Structure.ofOptions (nullable : Bool) : List Structure → Structure
  | [] => .primitive { nullable := true } "null"
  | [only] => only.setNullable nullable
  | options => .mixed { nullable } options

namespace PathTree

/-- The shape of the position at a path, `levels` levels deep. -/
def structureAt (t : PathTree) (c : Config) : (levels : Nat) → Path → Structure
  | 0, _ => .anything
  | levels + 1, path =>
    match t.node? path with
    | none => .anything
    | some n =>
      let arrays := if n.lists.isEmpty then [] else
        [.array {} (n.element?.map (t.structureAt c levels)) n.arrayDepth n.itemTags]
      let maps := if n.keySets.isEmpty then [] else
        match t.record? c n with
        | some record => [record]
        | none =>
          [.object {} <| n.named.map fun child =>
            let name := (child.getLast?.map Segment.text).getD ""
            let s := t.structureAt c levels child
            (name, if n.lacks name then s.makeOptional else s)]
      .ofOptions n.nullable (n.scalarOption ++ arrays ++ maps)

/-- The steps of the decisions on records at the positions from a path down, after so many calls. It
takes two calls to look one position further. -/
def structureSteps (t : PathTree) (c : Config) (height : Nat) : (levels : Nat) → Path → List Step
  | 0, _ => []
  | levels + 1, path =>
    match t.node? path with
    | none => []
    | some n =>
      let below := t.structureSteps c (height + 2) levels
      (if n.lists.isEmpty then [] else (n.element?.map below).getD [])
        ++ if n.keySets.isEmpty then [] else
          t.decisionSteps c height n ++ if (t.record? c n).isNone then n.named.flatMap below else []

end PathTree

/-- How many levels may be looked at from a depth on. -/
def Config.levels (c : Config) (depth : Int) : Nat := ((c.maxDepth : Int) + 1 - depth).toNat

/-- From the root, positions are looked at down to the greatest depth. -/
theorem Config.levels_zero (c : Config) : c.levels 0 = c.maxDepth + 1 := by
  simp only [levels]
  omega

end SchemaInference
