import SchemaInference.Value.Basic

/-!
How deep lists are nested, and what they hold at the bottom. The walk keeps the lists it has entered
on a stack, so its depth is bounded by memory alone.
-/

namespace SchemaInference

/-- The depth of a list, one for a flat one, and the items in it that are no lists, in order. -/
structure Nesting where
  depth : Nat
  leaves : List Value

namespace Nesting

/-- Walks the rests of the lists that have been entered, the innermost first. `height` is their
number, `deepest` the greatest number so far, `found` the leaves so far, the last first. -/
def walk (deepest height : Nat) (found : List Value) (stack : List (List Value)) : Nesting :=
  match stack with
  | [] => ⟨deepest, found.reverse⟩
  | [] :: below => walk deepest (height - 1) found below
  | (.list _ items :: rest) :: below =>
    walk (max deepest (height + 1)) (height + 1) found (items :: rest :: below)
  | (v :: rest) :: below => walk deepest height (v :: found) (rest :: below)
termination_by sizeOf stack

/-- The nesting of the list with these items. -/
def ofItems (items : List Value) : Nesting := walk 1 1 [] [items]

/-- The tags of the leaves. -/
def tags (n : Nesting) : List String := n.leaves.map Value.tag

end Nesting

end SchemaInference
