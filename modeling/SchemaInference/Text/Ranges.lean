/-!
Sets of code points as closed ranges, ascending and apart, and the search in them.
-/

namespace SchemaInference.Text

/-- Whether the ranges from `low` up to, and not including, `high` hold `n`: the ranges ascend, so
half of what is left is dropped at each of at most `steps` steps. -/
def inRanges (ranges : Array (Nat × Nat)) (n : Nat) : (steps low high : Nat) → Bool
  | 0, _, _ => false
  | steps + 1, low, high =>
    if low < high then
      let middle := (low + high) / 2
      match ranges[middle]? with
      | none => false
      | some (first, last) =>
        if n < first then inRanges ranges n steps low middle
        else if last < n then inRanges ranges n steps (middle + 1) high
        else true
    else false

/-- Whether a character lies in one of the ranges. -/
def liesIn (ranges : Array (Nat × Nat)) (c : Char) : Bool :=
  inRanges ranges c.toNat ranges.size 0 ranges.size

end SchemaInference.Text
