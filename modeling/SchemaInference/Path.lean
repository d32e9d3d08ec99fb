/-!
Paths into documents. A concrete path names every list position it passes; its flat form puts one
wildcard in the place of them all, so that all items of a list share a path.
-/

namespace SchemaInference

/-- One step of a path: the key of a map, or a position in a list. -/
inductive Segment where
  | key (name : String)
  | index (position : String)
  deriving DecidableEq, Repr

namespace Segment

/-- The position that stands for every position. -/
def wildcard : Segment := .index "$"

/-- The step to the item at a position. -/
def item (position : Nat) : Segment := .index (toString position)

/-- Whether a step is that to a key. -/
def isKey : Segment → Bool
  | .key _ => true
  | .index _ => false

/-- A key is no wildcard, even if it reads as one. -/
def isWildcard (s : Segment) : Bool := s == wildcard

/-- The key or position alone. -/
def text : Segment → String
  | .key name => name
  | .index position => position

/-- A step with its position forgotten. -/
def flat : Segment → Segment
  | .key name => .key name
  | .index _ => wildcard

@[simp] theorem flat_key (name : String) : (key name).flat = key name := rfl
@[simp] theorem flat_index (position : String) : (index position).flat = wildcard := rfl

@[simp] theorem flat_flat (s : Segment) : s.flat.flat = s.flat := by cases s <;> rfl

@[simp] theorem isWildcard_key (name : String) : (key name).isWildcard = false := by
  simp [isWildcard, wildcard]

end Segment

/-- A sequence of steps from the root of a document. -/
abbrev Path := List Segment

namespace Path

/-- The flat form of a path. -/
def flat (p : Path) : Path := p.map Segment.flat

/-- The steps with points between them. A point inside a key shows as it is. -/
def format (p : Path) : String := ".".intercalate (p.map Segment.text)

@[simp] theorem flat_nil : flat [] = [] := rfl

@[simp] theorem flat_cons (s : Segment) (p : Path) : flat (s :: p) = s.flat :: flat p := rfl

@[simp] theorem flat_append (p q : Path) : flat (p ++ q) = flat p ++ flat q := by
  simp [flat]

@[simp] theorem length_flat (p : Path) : (flat p).length = p.length := by simp [flat]

@[simp] theorem flat_idem (p : Path) : flat (flat p) = flat p := by
  simp [flat, Function.comp_def]

/-- What goes on by a step in its flat form goes on by one that stands for it. -/
theorem eq_concat_of_flat {p front : Path} {step : Segment} (same : flat p = front ++ [step]) :
    ∃ above last, p = above ++ [last] ∧ flat above = front ∧ last.flat = step := by
  obtain ⟨above, below, rfl, aboveSame, belowSame⟩ := List.map_eq_append_iff.mp same
  obtain ⟨last, rfl, lastSame⟩ := List.map_eq_singleton_iff.mp belowSame
  exact ⟨above, last, rfl, aboveSame, lastSame⟩

theorem length_of_flat_concat {p front : Path} {step : Segment} (same : flat p = front ++ [step]) :
    p.length = front.length + 1 := by
  rw [← length_flat, same, List.length_append, List.length_singleton]

/-- A step further there is a level less to go. -/
theorem length_concat_add {p : Path} {levels total : Nat} (step : Segment)
    (depth : p.length + (levels + 1) = total) : (p ++ [step]).length + levels = total := by
  rw [List.length_append, List.length_singleton]
  omega

end Path

end SchemaInference
