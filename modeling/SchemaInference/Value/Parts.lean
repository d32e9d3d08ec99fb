import SchemaInference.Value.Nesting

/-!
The parts of a value: the items of a list, the keys of a map, the members of a set, the characters
of a text, the bytes of a buffer, what a window reads and the numbers of a range.
-/

namespace SchemaInference

namespace Value

/-- The parts of a value in order, if it has any. -/
def parts? : Value → Option (List Value)
  | .list _ items => some items
  | .map _ entries | .view _ entries => some (entries.map Prod.fst)
  | .set _ members => some members
  | .text s => some (s.toList.map fun c => .text c.toString)
  | .leaf (.buffer _ bytes) => some (bytes.map fun b => .number (.int b.toNat))
  | .leaf (.window w bytes) =>
    bytes.mapM fun b => (w.format.reading? b).map fun
      | .inl n => .number (.int n)
      | .inr b => .leaf (.buffer .fixed [b])
  | .leaf (.range stop) => some ((List.range stop.toNat).map fun (i : Nat) => .number (.int i))
  | _ => none

end Value

end SchemaInference
