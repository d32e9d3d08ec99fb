import SchemaInference.Samples

/-!
The tree of the flat paths of samples. Every path that holds samples has a node, and so has every
path on the way to it from the root; a node knows its children in the order in which they came.
-/

namespace SchemaInference

/-- The paths on the way from the root to a path, both included. -/
def Path.ancestry : Path → List Path
  | [] => [[]]
  | s :: rest => [] :: (ancestry rest).map (s :: ·)

/-- A node of the tree, with what was seen at its path. The root has neither parent nor step. -/
structure PathNode where
  parent : Option Path
  step : Option Segment
  children : List Path
  values : List Value
  keySets : List (List String)

namespace PathNode

/-- The children that are reached by keys. -/
def named (n : PathNode) : List Path :=
  n.children.filter fun path => !path.getLast?.any Segment.isWildcard

/-- The child that stands for the items of lists. -/
def element? (n : PathNode) : Option Path :=
  n.children.find? fun path => path.getLast?.any Segment.isWildcard

/-- The lists among the values. -/
def lists (n : PathNode) : List Value := n.values.filter Value.isList

/-- The values that are neither lists nor null. -/
def scalars (n : PathNode) : List Value := n.values.filter fun v => !v.isNull && !v.isList

/-- Whether null was seen at a node. -/
def nullable (n : PathNode) : Bool := n.values.any Value.isNull

/-- Whether nothing but leaves was seen at a node. -/
def isLeaf (n : PathNode) : Bool :=
  n.children.isEmpty && n.keySets.isEmpty && n.values.all fun v => !v.isList && !v.isMap

end PathNode

/-- The nodes by their paths, in the order in which they were made. -/
structure PathTree where
  nodes : List (Path × PathNode)

namespace PathTree

/-- The node at a path. -/
def node? (t : PathTree) (path : Path) : Option PathNode := Assoc.find? path t.nodes

/-- The root, before any path has a place in the tree. -/
def root (s : Samples) : PathTree :=
  ⟨[([], ⟨none, none, [], s.valuesAt [], s.keySetsAt []⟩)]⟩

/-- Makes a node for a path whose parent has one, unless it has one itself. -/
def grow (s : Samples) (t : PathTree) (path : Path) : PathTree :=
  if Assoc.contains path t.nodes then t
  else
    let parent := path.dropLast
    let linked := t.nodes.map fun (other, n) =>
      if other = parent then (other, { n with children := n.children ++ [path] }) else (other, n)
    ⟨linked ++ [(path, ⟨some parent, path.getLast?, [], s.valuesAt path, s.keySetsAt path⟩)]⟩

/-- The tree of some samples. -/
def ofSamples (s : Samples) : PathTree :=
  (s.paths.flatMap Path.ancestry).foldl (grow s) (root s)

end PathTree

end SchemaInference
