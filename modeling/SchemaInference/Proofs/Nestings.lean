import SchemaInference.Value.Nesting

/-! How lists are nested, item by item. The walk that measures a list keeps the lists which it has
entered on a stack; what it finds is what a recursion over the items says: a list is one level
deeper than the deepest of its items, and holds at the bottom what they do. -/
namespace SchemaInference

namespace Value

mutual

/-- How many lists stand in one another in a value, itself included. -/
def listDepth : Value → Nat
  | .list _ items => itemsDepth items + 1
  | _ => 0
termination_by structural v => v

/-- The greatest depth of some items. -/
def itemsDepth : List Value → Nat
  | [] => 0
  | v :: rest => max (listDepth v) (itemsDepth rest)
termination_by structural items => items

end

mutual

/-- What a value holds at the bottom of its lists, in order; itself, if it is no list. -/
def bottom : Value → List Value
  | .list _ items => itemsBottom items
  | v => [v]
termination_by structural v => v

/-- What some items hold at the bottom. -/
def itemsBottom : List Value → List Value
  | [] => []
  | v :: rest => bottom v ++ itemsBottom rest
termination_by structural items => items

end

variable {v : Value} {items : List Value}

@[simp] theorem listDepth_of_not_list (other : v.isList = false) : v.listDepth = 0 := by
  cases v <;> first | rfl | cases other

@[simp] theorem bottom_of_not_list (other : v.isList = false) : v.bottom = [v] := by
  cases v <;> first | rfl | cases other

/-- A map is at the bottom itself. -/
theorem bottom_tag_of_isMap (isMap : v.isMap = true) {tag : String} :
    (∃ leaf ∈ v.bottom, leaf.tag = tag) ↔ tag = "object" := by
  cases v with
  | map form entries => simp [bottom, Value.tag, kind, Kind.tag, eq_comm]
  | _ => cases isMap

theorem itemsDepth_le_iff {depth : Nat} :
    itemsDepth items ≤ depth ↔ ∀ v ∈ items, v.listDepth ≤ depth := by
  induction items with
  | nil => simp [itemsDepth]
  | cons v rest ih => rw [itemsDepth, Nat.max_le, ih, List.forall_mem_cons]

theorem itemsBottom_eq (items : List Value) : itemsBottom items = items.flatMap bottom := by
  induction items with
  | nil => rfl
  | cons v rest ih => rw [itemsBottom, ih, List.flatMap_cons]

end Value

namespace Nesting
open Value

/-- How deep the walk gets from a stack of rests of lists. -/
def reach : List (List Value) → Nat
  | [] => 0
  | items :: below => max (below.length + 1 + itemsDepth items) (reach below)

theorem length_le_reach (stack : List (List Value)) : stack.length ≤ reach stack := by
  cases stack with
  | nil => exact Nat.le_refl 0
  | cons items below =>
    exact Nat.le_trans (Nat.le_add_right _ _) (Nat.le_max_left _ (reach below))

/-- The walk gets as deep from a list that is entered as it does when it comes to that list. -/
theorem reach_entered (inner rest : List Value) (below : List (List Value)) :
    reach (inner :: rest :: below) =
      max (below.length + 1 + max (itemsDepth inner + 1) (itemsDepth rest)) (reach below) := by
  have apart : below.length + 1 + max (itemsDepth inner + 1) (itemsDepth rest) =
      max (below.length + 1 + 1 + itemsDepth inner) (below.length + 1 + itemsDepth rest) := by omega
  rw [reach, reach, List.length_cons, apart, Nat.max_assoc]

/-- The walk finds the greatest depth there is, and after the leaves so far those that are left. -/
theorem walk_eq (deepest height : Nat) (found : List Value) (stack : List (List Value))
    (entered : height = stack.length) (counted : height ≤ deepest) :
    walk deepest height found stack =
      ⟨max deepest (reach stack), found.reverse ++ stack.flatMap itemsBottom⟩ := by
  -- A list on the stack has been counted before its items are walked, so that an exhausted one
  -- adds nothing: this is what the two hypotheses on the counters are for.
  induction deepest, height, found, stack using walk.induct with
  | case1 deepest height found =>
    rw [walk, reach, Nat.max_zero, List.flatMap_nil, List.append_nil]
  | case2 deepest height found below ih =>
    rw [List.length_cons] at entered
    rw [walk, ih (by omega) (by omega), reach, itemsDepth]
    have left : max deepest (reach below) =
        max deepest (max (below.length + 1 + 0) (reach below)) := by omega
    rw [left, List.flatMap_cons, itemsBottom, List.nil_append]
  | case3 deepest height found form items rest below ih =>
    rw [List.length_cons] at entered
    have deeper : height + 1 ≤ reach (items :: rest :: below) :=
      entered ▸ length_le_reach (items :: rest :: below)
    rw [walk, ih (by simp [entered]) (by omega), Nat.max_assoc, Nat.max_eq_right deeper,
      reach_entered, reach, itemsDepth, listDepth]
    simp [itemsBottom, bottom]
  | case4 deepest height found v rest below notList ih =>
    have other : v.isList = false := by
      cases v <;> first | rfl | exact absurd rfl (notList _ _)
    rw [walk, ih entered counted]
    · simp [reach, itemsDepth, itemsBottom, other]
    · exact notList

/-- A list is one level deeper than its items, and has the leaves that they have. -/
theorem ofItems_eq (items : List Value) :
    ofItems items = ⟨itemsDepth items + 1, itemsBottom items⟩ := by
  rw [ofItems, walk_eq 1 1 [] [items] rfl (Nat.le_refl 1)]
  simp only [reach, List.length_nil, List.flatMap_cons, List.flatMap_nil, List.append_nil,
    List.reverse_nil, List.nil_append]
  congr 1
  omega

theorem foldl_depth_le_iff {found : List Nesting} {start depth : Nat} :
    found.foldl (fun deepest s => max deepest s.depth) start ≤ depth ↔
      start ≤ depth ∧ ∀ s ∈ found, s.depth ≤ depth := by
  induction found generalizing start with
  | nil => simp
  | cons s rest ih => rw [List.foldl_cons, ih, Nat.max_le, List.forall_mem_cons, and_assoc]

end Nesting
end SchemaInference
