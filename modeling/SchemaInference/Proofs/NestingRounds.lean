import Mathlib.Data.List.TakeWhile
import Mathlib.Logic.Function.Iterate
import SchemaInference.Proofs.Nestings

/-! Lists measured in rounds. A round goes on with the innermost list that has been entered, from
where it was left, to the next list in it or to its end. Each list is so entered in one round and
left in another, and the rounds come to an end however the lists are nested; until then what has
been found and what is left to find make up the same depth and the same leaves. -/
namespace SchemaInference

namespace Value

mutual

/-- How many lists there are in a value, itself included. -/
def listCount : Value → Nat
  | .list _ items => itemsListCount items + 1
  | _ => 0
termination_by structural v => v

/-- How many lists there are in some items. -/
def itemsListCount : List Value → Nat
  | [] => 0
  | v :: rest => listCount v + itemsListCount rest
termination_by structural items => items

end

variable {v : Value} {front items : List Value}

@[simp] theorem listCount_of_not_list (other : v.isList = false) : v.listCount = 0 := by
  cases v <;> first | rfl | cases other

theorem itemsListCount_append (front items : List Value) :
    itemsListCount (front ++ items) = itemsListCount front + itemsListCount items := by
  induction front with
  | nil => rw [List.nil_append, itemsListCount, Nat.zero_add]
  | cons v rest ih => rw [List.cons_append, itemsListCount, ih, itemsListCount, Nat.add_assoc]

theorem itemsDepth_append (front items : List Value) :
    itemsDepth (front ++ items) = max (itemsDepth front) (itemsDepth items) := by
  induction front with
  | nil => rw [List.nil_append, itemsDepth, Nat.zero_max]
  | cons v rest ih => rw [List.cons_append, itemsDepth, ih, itemsDepth, Nat.max_assoc]

theorem itemsBottom_append (front items : List Value) :
    itemsBottom (front ++ items) = itemsBottom front ++ itemsBottom items := by
  simp only [itemsBottom_eq, List.flatMap_append]

/-- Items that are no lists are the leaves. -/
theorem items_of_no_list (none : ∀ v ∈ items, v.isList = false) :
    itemsListCount items = 0 ∧ itemsDepth items = 0 ∧ itemsBottom items = items := by
  induction items with
  | nil => exact ⟨rfl, rfl, rfl⟩
  | cons v rest ih =>
    obtain ⟨first, later⟩ := List.forall_mem_cons.mp none
    obtain ⟨count, depth, bottom⟩ := ih later
    simp [itemsListCount, itemsDepth, itemsBottom, first, count, depth, bottom]

/-- Items are no lists, or some come before the first list. -/
theorem items_cases (items : List Value) : (∀ v ∈ items, v.isList = false) ∨
    ∃ front form inner rest, items = front ++ .list form inner :: rest ∧
      ∀ v ∈ front, v.isList = false := by
  induction items with
  | nil => exact .inl (List.forall_mem_nil _)
  | cons v rest ih =>
    cases isList : v.isList with
    | true =>
      cases v with
      | list form inner => exact .inr ⟨[], form, inner, rest, rfl, List.forall_mem_nil _⟩
      | _ => cases isList
    | false =>
      rcases ih with none | ⟨front, form, inner, after, rfl, none⟩
      · exact .inl (List.forall_mem_cons.mpr ⟨isList, none⟩)
      · exact .inr ⟨v :: front, form, inner, after, rfl, List.forall_mem_cons.mpr ⟨isList, none⟩⟩

end Value

namespace Nesting
open Value

/-- What is held between two rounds: the greatest number of lists that have stood entered at a time,
the leaves so far, and what is left of each list that is entered, the innermost first. -/
structure Progress where
  deepest : Nat
  leaves : List Value
  entered : List (List Value)

namespace Progress

/-- One round. The items of the innermost list up to the next list are leaves; that list is entered,
and if there is none the innermost one is left. Once no list is entered nothing happens. -/
def round : Progress → Progress
  | ⟨deepest, leaves, []⟩ => ⟨deepest, leaves, []⟩
  | ⟨deepest, leaves, items :: below⟩ =>
    let deepest := max deepest (below.length + 1)
    let leaves := leaves ++ items.takeWhile (!·.isList)
    match items.dropWhile (!·.isList) with
    | .list _ inner :: rest => ⟨deepest, leaves, inner :: rest :: below⟩
    | _ => ⟨deepest, leaves, below⟩

/-- Before the first round the list itself is entered. -/
def start (items : List Value) : Progress := ⟨1, [], [items]⟩

/-- What has been found together with what is left to find. -/
def outcome (p : Progress) : Nesting :=
  ⟨max p.deepest (reach p.entered), p.leaves ++ p.entered.flatMap itemsBottom⟩

/-- The rounds that it takes to leave lists of which so much is left: one for each of them, and for
each list in what is left one to enter and one to leave that. -/
def roundsFor : List (List Value) → Nat
  | [] => 0
  | items :: below => 2 * itemsListCount items + 1 + roundsFor below

/-- The rounds that are left. -/
def roundsLeft (p : Progress) : Nat := roundsFor p.entered

variable {p : Progress} {deepest : Nat} {leaves front : List Value} {below : List (List Value)}

/-! ## One round -/

theorem round_leaves (none : ∀ v ∈ front, v.isList = false) :
    round ⟨deepest, leaves, front :: below⟩ =
      ⟨max deepest (below.length + 1), leaves ++ front, below⟩ := by
  have taken : front.takeWhile (!·.isList) = front :=
    List.takeWhile_eq_self_iff.mpr fun v among => by simp [none v among]
  have dropped : front.dropWhile (!·.isList) = [] :=
    List.dropWhile_eq_nil_iff.mpr fun v among => by simp [none v among]
  simp only [round, taken, dropped]

theorem round_enters (none : ∀ v ∈ front, v.isList = false) (form : ListForm)
    (inner rest : List Value) :
    round ⟨deepest, leaves, (front ++ .list form inner :: rest) :: below⟩ =
      ⟨max deepest (below.length + 1), leaves ++ front, inner :: rest :: below⟩ := by
  have pass : ∀ v ∈ front, (!v.isList) = true := fun v among => by simp [none v among]
  have taken : (front ++ .list form inner :: rest).takeWhile (!·.isList) = front := by
    rw [List.takeWhile_append_of_pos pass]
    simp [isList]
  have dropped : (front ++ .list form inner :: rest).dropWhile (!·.isList) =
      .list form inner :: rest := by
    rw [List.dropWhile_append_of_pos pass]
    simp [isList]
  simp only [round, taken, dropped]

/-- A round moves what it finds, and neither adds to it nor loses any. -/
theorem outcome_round (p : Progress) : p.round.outcome = p.outcome := by
  obtain ⟨deepest, leaves, _ | ⟨items, below⟩⟩ := p
  · rfl
  · rcases items_cases items with none | ⟨front, form, inner, rest, rfl, none⟩
    · obtain ⟨-, depth, bottom⟩ := items_of_no_list none
      rw [round_leaves none, outcome, outcome]
      simp only [reach, depth, List.flatMap_cons, bottom, List.append_assoc]
      congr 1
      omega
    · obtain ⟨-, depth, bottom⟩ := items_of_no_list none
      have deeper : below.length + 1 ≤ reach (inner :: rest :: below) :=
        Nat.le_trans (Nat.le_succ _) (length_le_reach (inner :: rest :: below))
      have reached : max (max deepest (below.length + 1)) (reach (inner :: rest :: below)) =
          max deepest (reach ((front ++ .list form inner :: rest) :: below)) := by
        rw [Nat.max_assoc, Nat.max_eq_right deeper, reach_entered, reach, itemsDepth_append, depth,
          Nat.zero_max, itemsDepth, listDepth]
      rw [round_enters none, outcome, outcome]
      simp only [reached, List.flatMap_cons, itemsBottom_append, bottom, itemsBottom, Value.bottom,
        List.append_assoc]

/-- Each round is one less to go. -/
theorem roundsLeft_round (p : Progress) : p.round.roundsLeft = p.roundsLeft - 1 := by
  obtain ⟨deepest, leaves, _ | ⟨items, below⟩⟩ := p
  · rfl
  · rcases items_cases items with none | ⟨front, form, inner, rest, rfl, none⟩
    · obtain ⟨count, -, -⟩ := items_of_no_list none
      rw [round_leaves none, roundsLeft, roundsLeft]
      simp only [roundsFor, count]
      omega
    · obtain ⟨count, -, -⟩ := items_of_no_list none
      rw [round_enters none, roundsLeft, roundsLeft]
      simp only [roundsFor, itemsListCount_append, count, itemsListCount, listCount]
      omega

theorem roundsLeft_eq_zero_iff : p.roundsLeft = 0 ↔ p.entered = [] := by
  obtain ⟨deepest, leaves, _ | ⟨items, below⟩⟩ := p
  · exact iff_of_true rfl rfl
  · simp [roundsLeft, roundsFor]

/-! ## All rounds -/

theorem outcome_rounds (p : Progress) (rounds : Nat) : (round^[rounds] p).outcome = p.outcome := by
  induction rounds with
  | zero => rfl
  | succ rounds ih => rw [Function.iterate_succ_apply', outcome_round, ih]

theorem roundsLeft_rounds (p : Progress) (rounds : Nat) :
    (round^[rounds] p).roundsLeft = p.roundsLeft - rounds := by
  induction rounds with
  | zero => rfl
  | succ rounds ih => rw [Function.iterate_succ_apply', roundsLeft_round, ih, Nat.sub_sub]

/-- The lists that are entered are left again in as many rounds as are left, and no sooner. -/
theorem entered_rounds_eq_nil_iff (p : Progress) (rounds : Nat) :
    (round^[rounds] p).entered = [] ↔ p.roundsLeft ≤ rounds := by
  rw [← roundsLeft_eq_zero_iff, roundsLeft_rounds, Nat.sub_eq_zero_iff_le]

/-- What has been found in the end is all that there was to find. -/
theorem rounds_eq (p : Progress) :
    round^[p.roundsLeft] p = ⟨p.outcome.depth, p.outcome.leaves, []⟩ := by
  have ended := (entered_rounds_eq_nil_iff p p.roundsLeft).mpr (Nat.le_refl _)
  rw [← outcome_rounds p p.roundsLeft]
  generalize round^[p.roundsLeft] p = last at ended ⊢
  obtain ⟨deepest, leaves, entered⟩ := last
  obtain rfl : entered = [] := ended
  simp [outcome, reach]

end Progress

/-! ## Item by item -/

theorem outcome_start (items : List Value) : (Progress.start items).outcome = ofItems items := by
  rw [Progress.start, Progress.outcome, ofItems_eq]
  simp only [reach, List.length_nil, List.flatMap_cons, List.flatMap_nil, List.append_nil,
    List.nil_append]
  congr 1
  omega

/-- The items of the lists among some items. -/
def listsAmong (items : List Value) : List (List Value) := items.filterMap Value.items?

theorem itemsDepth_eq (items : List Value) :
    itemsDepth items = ((listsAmong items).map fun inner => (ofItems inner).depth).foldr max 0 := by
  induction items with
  | nil => rfl
  | cons v rest ih =>
    rw [itemsDepth, ih]
    cases v with
    | list form inner => simp [listsAmong, items?, listDepth, ofItems_eq]
    | _ => exact Nat.zero_max _

theorem bottom_eq (v : Value) :
    v.bottom = match v.items? with
      | some inner => (ofItems inner).leaves
      | none => [v] := by
  cases v with
  | list form inner => exact (congrArg Nesting.leaves (ofItems_eq inner)).symm
  | _ => rfl

/-- A list is measured in rounds, two for each list in it and one for itself, no fewer and no more.
What is found is that the list is one level deeper than the deepest of the lists among its items,
and has at the bottom its items in order, with the leaves of a list in that list's place. So an
empty list is one level deep and has no leaves. -/
theorem measured_item_by_item (items : List Value) :
    let start := Progress.start items
    let total := 2 * itemsListCount items + 1
    (∀ rounds, (Progress.round^[rounds] start).entered = [] ↔ total ≤ rounds) ∧
      Progress.round^[total] start = ⟨(ofItems items).depth, (ofItems items).leaves, []⟩ ∧
      (ofItems items).depth =
        1 + ((listsAmong items).map fun inner => (ofItems inner).depth).foldr max 0 ∧
      (ofItems items).leaves = items.flatMap (fun v => match v.items? with
        | some inner => (ofItems inner).leaves
        | none => [v]) ∧
      ofItems [] = ⟨1, []⟩ := by
  intro start total
  have left : start.roundsLeft = total := Nat.add_zero _
  refine ⟨fun rounds => ?_, ?_, ?_, ?_, ?_⟩
  · rw [Progress.entered_rounds_eq_nil_iff, left]
  · rw [← left, Progress.rounds_eq, outcome_start]
  · rw [← itemsDepth_eq, ofItems_eq, Nat.add_comm]
  · rw [ofItems_eq, itemsBottom_eq]
    exact congrArg items.flatMap (funext bottom_eq)
  · rw [ofItems_eq]
    rfl

end Nesting
end SchemaInference
