import Mathlib.Data.List.Basic
import SchemaInference.Label

/-! Reading labels back. Nothing of a label is lost when it is cut at its bars and the pieces are
grouped by their brackets; and a label that was put together from members without bars, or from an
enumeration of such texts, falls into those members again. -/
namespace SchemaInference.Label

/-! ## Cutting at bars -/

theorem toList_bar : bar.toList = [' ', '|', ' '] := rfl

theorem cutBars_ne_nil (cs : List Char) : cutBars cs ≠ [] := by
  fun_cases cutBars cs <;> simp_all

/-- A character that does not begin a bar goes to the first piece. -/
theorem cutBars_cons (c : Char) (rest : List Char)
    (noBar : ∀ after, c :: rest ≠ ' ' :: '|' :: ' ' :: after) :
    cutBars (c :: rest) = (cutBars rest).modifyHead (c :: ·) := by
  rw [cutBars.eq_def]
  split
  · rename_i after same
    exact absurd same (noBar after)
  · rename_i same
    cases same
    split
    · rename_i none
      exact absurd none (cutBars_ne_nil _)
    · rename_i found
      simp [found]
  · contradiction

/-- A text behind which a bar can stand: there is none in it, and none begins at its end. -/
def Barless (cs : List Char) : Prop := ¬ bar.toList <:+: cs ++ [' ', '|']

/-- A text without the sign between the blanks of a bar. -/
theorem barless_of_not_mem {cs : List Char} (free : '|' ∉ cs) : Barless cs := by
  induction cs with
  | nil => rw [Barless, toList_bar]; decide
  | cons c rest ih =>
    intro inside
    rcases List.infix_cons_iff.mp inside with ⟨after, same⟩ | later
    · cases rest with
      | nil => simp [toList_bar] at same
      | cons d rest => simp_all [toList_bar]
    · exact ih (fun member => free (List.mem_cons_of_mem _ member)) later

theorem Barless.not_inside {cs : List Char} (barless : Barless cs) : ¬ bar.toList <:+: cs :=
  fun inside => barless (inside.trans (List.prefix_append cs _).isInfix)

/-- No bar reaches into a text from what has no blank. -/
theorem Barless.append_left {cs front : List Char} (barless : Barless cs) (noBlank : ' ' ∉ front) :
    Barless (front ++ cs) := by
  induction front with
  | nil => exact barless
  | cons c front ih =>
    intro inside
    rcases List.infix_cons_iff.mp inside with ⟨after, same⟩ | later
    · simp_all [toList_bar]
    · exact ih (fun member => noBlank (List.mem_cons_of_mem _ member)) later

/-- No bar reaches beyond a closing bracket. -/
theorem Barless.append_bracket {cs : List Char} (barless : Barless cs) : Barless (cs ++ [')']) := by
  have inner := barless.not_inside
  clear barless
  induction cs with
  | nil => rw [Barless, toList_bar]; decide
  | cons c rest ih =>
    intro inside
    rcases List.infix_cons_iff.mp inside with ⟨after, same⟩ | later
    · -- What the bar takes of the text is all of it, and then the bracket would be in it.
      match rest with
      | [] | [_] => simp [toList_bar] at same
      | second :: third :: rest =>
        simp only [toList_bar, List.cons_append, List.cons.injEq] at same
        obtain ⟨rfl, rfl, rfl, -⟩ := same
        exact inner (List.prefix_append bar.toList rest).isInfix
    · exact ih (fun inside => inner (List.infix_cons inside)) later

/-- What the bar behind a piece begins with. -/
theorem before_bar_ends (piece rest : List Char) :
    piece ++ [' ', '|'] <+: piece ++ bar.toList ++ rest := ⟨' ' :: rest, by simp [toList_bar]⟩

/-- No bar begins where one would have to end sooner than the first. -/
theorem no_bar_before {piece : List Char} (filled : piece ≠ []) (barless : Barless piece)
    (rest after : List Char) : piece ++ bar.toList ++ rest ≠ ' ' :: '|' :: ' ' :: after := by
  intro same
  have long : bar.toList.length ≤ (piece ++ [' ', '|']).length := by
    have := List.length_pos_iff.mpr filled
    simp only [toList_bar, List.length_append, List.length_cons, List.length_nil]
    omega
  have bars : bar.toList <+: piece ++ bar.toList ++ rest := same ▸ List.prefix_append _ after
  exact barless (List.prefix_of_prefix_length_le bars (before_bar_ends piece rest) long).isInfix

theorem cutBars_of_no_bar {piece : List Char} (free : ¬ bar.toList <:+: piece) :
    cutBars piece = [piece] := by
  induction piece with
  | nil => rfl
  | cons c rest ih =>
    rw [cutBars_cons c rest, ih fun inside => free (List.infix_cons inside)]
    · rfl
    · intro after same
      exact free (same ▸ (List.prefix_append bar.toList after).isInfix)

theorem cutBars_of_first_bar {piece : List Char} (barless : Barless piece) (rest : List Char) :
    cutBars (piece ++ bar.toList ++ rest) = piece :: cutBars rest := by
  induction piece with
  | nil => rfl
  | cons c piece ih =>
    have noBar := no_bar_before (List.cons_ne_nil c piece) barless rest
    rw [List.cons_append, List.cons_append] at noBar ⊢
    rw [cutBars_cons c _ noBar, ih fun inside => barless (List.infix_cons inside)]
    rfl

theorem cutBars_intercalate (pieces : List (List Char)) (nonempty : pieces ≠ [])
    (barless : ∀ piece ∈ pieces, Barless piece) :
    cutBars (bar.toList.intercalate pieces) = pieces := by
  induction pieces with
  | nil => contradiction
  | cons piece rest ih =>
    obtain ⟨first, later⟩ := List.forall_mem_cons.mp barless
    cases rest with
    | nil => simpa using cutBars_of_no_bar first.not_inside
    | cons next rest =>
      rw [List.intercalate_cons_cons, cutBars_of_first_bar first, ih (by simp) later]

theorem intercalate_cutBars (cs : List Char) : bar.toList.intercalate (cutBars cs) = cs := by
  fun_induction cutBars cs with
  | case1 rest ih =>
    rw [List.intercalate_cons_of_ne_nil (cutBars_ne_nil rest), ih]
    rfl
  | case2 c rest _ none => exact absurd none (cutBars_ne_nil rest)
  | case3 c rest _ piece pieces found ih =>
    rw [found] at ih
    rw [List.intercalate_cons_cons_left, ih]
  | case4 => simp

/-! ## Grouping by brackets -/

/-- Pieces that make one group when so much is open before them: something stays open until the
last piece closes everything. -/
def Closing (opened : Int) : List (List Char) → Prop
  | [] => False
  | [piece] => opened + balance piece ≤ 0
  | piece :: rest => 0 < opened + balance piece ∧ Closing (opened + balance piece) rest

theorem groupOpen_append {opened : Int} {group : List (List Char)} (closing : Closing opened group)
    (rest : List (List Char)) : groupOpen opened (group ++ rest) = group :: groupOpen 0 rest := by
  induction group generalizing opened with
  | nil => exact closing.elim
  | cons piece group ih =>
    cases group with
    | nil =>
      have closed : opened + balance piece ≤ 0 := closing
      simp [groupOpen, closed]
    | cons next group =>
      rw [Closing.eq_3 _ _ _ (by simp)] at closing
      have notClosed : ¬ opened + balance piece ≤ 0 := by omega
      rw [List.cons_append, groupOpen]
      simp only [notClosed, if_false, ih closing.2]

theorem groupOpen_flatten (groups : List (List (List Char)))
    (closing : ∀ group ∈ groups, Closing 0 group) : groupOpen 0 groups.flatten = groups := by
  induction groups with
  | nil => rfl
  | cons group rest ih =>
    obtain ⟨first, later⟩ := List.forall_mem_cons.mp closing
    rw [List.flatten_cons, groupOpen_append first, ih later]

theorem flatten_groupOpen (opened : Int) (pieces : List (List Char)) :
    (groupOpen opened pieces).flatten = pieces := by
  fun_induction groupOpen opened pieces with
  | case1 => rfl
  | case2 opened piece pieces _ closed ih => simp [ih]
  | case3 opened piece pieces _ notClosed none ih => simpa [none] using ih
  | case4 opened piece pieces _ notClosed group groups found ih => simpa [found] using ih

theorem groupOpen_ne_nil {opened : Int} {pieces : List (List Char)} (nonempty : pieces ≠ []) :
    groupOpen opened pieces ≠ [] := by
  fun_cases groupOpen opened pieces <;> simp_all

theorem ne_nil_of_mem_groupOpen {opened : Int} {pieces group : List (List Char)}
    (member : group ∈ groupOpen opened pieces) : group ≠ [] := by
  fun_induction groupOpen opened pieces with
  | case1 => cases member
  | case2 opened piece pieces _ closed ih =>
    rcases List.mem_cons.mp member with rfl | member
    · simp
    · exact ih member
  | case3 opened piece pieces _ notClosed none ih =>
    rw [List.mem_singleton.mp member]
    simp
  | case4 opened piece pieces _ notClosed first groups found ih =>
    rcases List.mem_cons.mp member with rfl | member
    · simp
    · exact ih (found ▸ List.mem_cons_of_mem _ member)

theorem intercalate_append (bars : List Char) {first second : List (List Char)}
    (firstFilled : first ≠ []) (secondFilled : second ≠ []) :
    bars.intercalate (first ++ second) =
      bars.intercalate first ++ bars ++ bars.intercalate second := by
  induction first with
  | nil => contradiction
  | cons piece rest ih =>
    cases rest with
    | nil => simp [List.intercalate_cons_of_ne_nil secondFilled]
    | cons next rest =>
      rw [List.cons_append, List.intercalate_cons_of_ne_nil (by simp), ih (by simp),
        List.intercalate_cons_cons]
      simp only [List.append_assoc]

/-- Joining the groups and then the members is joining all pieces at once. -/
theorem intercalate_flatten (bars : List Char) (groups : List (List (List Char)))
    (nonempty : ∀ group ∈ groups, group ≠ []) :
    bars.intercalate (groups.map bars.intercalate) = bars.intercalate groups.flatten := by
  induction groups with
  | nil => rfl
  | cons group rest ih =>
    obtain ⟨first, later⟩ := List.forall_mem_cons.mp nonempty
    cases rest with
    | nil => simp
    | cons next rest =>
      have filled : (next :: rest).flatten ≠ [] := by
        simp [List.forall_mem_cons.mp later]
      have split : (group :: next :: rest).flatten = group ++ (next :: rest).flatten := rfl
      rw [List.map_cons, List.intercalate_cons_of_ne_nil (by simp), ih later, split,
        intercalate_append bars first filled]

/-! ## Members -/

/-- The members of a label, joined by bars, are the label. -/
theorem intercalate_rawMembers (cs : List Char) :
    bar.toList.intercalate (rawMembers cs) = cs := by
  rw [rawMembers, intercalate_flatten _ _ fun group member => ne_nil_of_mem_groupOpen member,
    flatten_groupOpen, intercalate_cutBars]

theorem rawMembers_ne_nil (cs : List Char) : rawMembers cs ≠ [] := by
  simp [rawMembers, groupOpen_ne_nil (cutBars_ne_nil cs)]

theorem rawMembers_intercalate (groups : List (List (List Char))) (nonempty : groups ≠ [])
    (barless : ∀ group ∈ groups, ∀ piece ∈ group, Barless piece)
    (closing : ∀ group ∈ groups, Closing 0 group) :
    rawMembers (bar.toList.intercalate (groups.map bar.toList.intercalate)) =
      groups.map bar.toList.intercalate := by
  have filled : ∀ group ∈ groups, group ≠ [] := by
    rintro group member rfl
    exact closing [] member
  have pieces : groups.flatten ≠ [] := by
    obtain ⟨group, member⟩ := List.exists_mem_of_ne_nil groups nonempty
    intro empty
    exact filled group member (List.flatten_eq_nil_iff.mp empty group member)
  rw [rawMembers, intercalate_flatten _ _ filled, cutBars_intercalate _ pieces,
    groupOpen_flatten _ closing]
  intro piece member
  obtain ⟨group, groupMember, member⟩ := List.mem_flatten.mp member
  exact barless group groupMember piece member

/-- A text that begins and ends with characters that are no blanks. -/
def Trimmed (cs : List Char) : Prop :=
  (∃ c, cs.head? = some c ∧ Text.isBlank c = false) ∧
    ∃ c, cs.getLast? = some c ∧ Text.isBlank c = false

instance (cs : List Char) : Decidable (Trimmed cs) :=
  decidable_of_iff (cs.head?.any (fun c => !Text.isBlank c) = true ∧
    cs.getLast?.any (fun c => !Text.isBlank c) = true) (by simp [Trimmed, Option.any_eq_true])

theorem Trimmed.between {first last : List Char} (firstTrimmed : Trimmed first)
    (lastTrimmed : Trimmed last) (middle : List Char) : Trimmed (first ++ middle ++ last) := by
  obtain ⟨⟨c, head, cProper⟩, _⟩ := firstTrimmed
  obtain ⟨_, d, tail, dProper⟩ := lastTrimmed
  exact ⟨⟨c, by simp [List.head?_append, head], cProper⟩,
    d, by simp [List.getLast?_append, tail], dProper⟩

theorem trimBy_of_trimmed {cs : List Char} (trimmed : Trimmed cs) :
    Text.trimBy Text.isBlank cs = cs := by
  obtain ⟨⟨c, head, cProper⟩, d, last, dProper⟩ := trimmed
  have front : cs.dropWhile Text.isBlank = cs := by
    obtain ⟨rest, rfl⟩ := List.head?_eq_some_iff.mp head
    simp [cProper]
  have back : cs.reverse.dropWhile Text.isBlank = cs.reverse := by
    obtain ⟨rest, reversed⟩ := List.head?_eq_some_iff.mp ((List.head?_reverse ..).trans last)
    simp [reversed, dProper]
  rw [Text.trimBy, front, back, List.reverse_reverse]

theorem not_blank_of_head?_dropWhile (cs : List Char) {c : Char}
    (head : (cs.dropWhile Text.isBlank).head? = some c) : Text.isBlank c = false := by
  have front := List.head?_dropWhile_not Text.isBlank cs
  simpa [head] using front

theorem trimmed_trimBy {cs : List Char} (nonempty : Text.trimBy Text.isBlank cs ≠ []) :
    Trimmed (Text.trimBy Text.isBlank cs) := by
  have whole : cs.dropWhile Text.isBlank = Text.trimBy Text.isBlank cs ++
      ((cs.dropWhile Text.isBlank).reverse.takeWhile Text.isBlank).reverse := by
    rw [Text.trimBy, ← List.reverse_append, List.takeWhile_append_dropWhile, List.reverse_reverse]
  obtain ⟨c, rest, front⟩ := List.exists_cons_of_ne_nil nonempty
  obtain ⟨d, back⟩ : ∃ d, (Text.trimBy Text.isBlank cs).getLast? = some d :=
    ⟨_, List.getLast?_eq_some_getLast nonempty⟩
  refine ⟨⟨c, by simp [front], not_blank_of_head?_dropWhile cs ?_⟩, d, back, ?_⟩
  · rw [whole, front]
    rfl
  · rw [Text.trimBy, List.getLast?_reverse] at back
    exact not_blank_of_head?_dropWhile _ back

/-- A member that stands in a label as it is: it is trimmed, and its pieces make one group. -/
structure Whole (text : String) : Prop where
  trimmed : Trimmed text.toList
  grouped : ∃ group, Closing 0 group ∧ (∀ piece ∈ group, Barless piece) ∧
    bar.toList.intercalate group = text.toList

/-- A text that can stand between bars whatever it is: it begins and ends with characters that are
no blanks, has nothing of a bar, and closes as many brackets as it opens. -/
structure Phrase (text : String) : Prop where
  trimmed : Trimmed text.toList
  free : '|' ∉ text.toList
  level : balance text.toList = 0

instance (text : String) : Decidable (Phrase text) :=
  decidable_of_iff (Trimmed text.toList ∧ '|' ∉ text.toList ∧ balance text.toList = 0)
    ⟨fun ⟨trimmed, free, level⟩ => ⟨trimmed, free, level⟩,
      fun ⟨trimmed, free, level⟩ => ⟨trimmed, free, level⟩⟩

/-- A text that can be a value of an enumeration: it is trimmed, if it is not empty, a bar can stand
behind it, and it closes as many brackets as it opens. -/
structure Listable (text : String) : Prop where
  trimmed : Text.trimBy Text.isBlank text.toList = text.toList
  barless : Barless text.toList
  level : balance text.toList = 0

theorem Phrase.whole {text : String} (phrase : Phrase text) : Whole text where
  trimmed := phrase.trimmed
  grouped := ⟨[text.toList], by simp [Closing, phrase.level],
    by simpa using barless_of_not_mem phrase.free, by simp⟩

/-- Members that can stand in a label are read back from it. -/
theorem split_intercalate (members : List String) (nonempty : members ≠ [])
    (whole : ∀ member ∈ members, Whole member) : split (bar.intercalate members) = members := by
  choose! group closing barless joined using fun member among => (whole member among).grouped
  have texts : (members.map group).map bar.toList.intercalate = members.map String.toList := by
    rw [List.map_map]
    exact List.map_congr_left fun member among => joined member among
  have read : rawMembers (bar.intercalate members).toList = members.map String.toList := by
    rw [String.toList_intercalate, ← texts]
    refine rawMembers_intercalate (members.map group) (by simpa using nonempty) ?_ ?_
    · simpa using barless
    · simpa using closing
  rw [split, read, List.map_map]
  refine (List.map_congr_left fun member among => ?_).trans (List.map_id members)
  simp [trimBy_of_trimmed (whole member among).trimmed]

theorem trim_intercalate {members : List String} (nonempty : members ≠ [])
    (whole : ∀ member ∈ members, Whole member) :
    Text.trim (bar.intercalate members) = bar.intercalate members := by
  have trimmed : Trimmed (bar.intercalate members).toList := by
    rw [String.toList_intercalate]
    induction members with
    | nil => contradiction
    | cons member rest ih =>
      obtain ⟨first, later⟩ := List.forall_mem_cons.mp whole
      cases rest with
      | nil => simpa using first.trimmed
      | cons next rest =>
        rw [List.map_cons, List.intercalate_cons_of_ne_nil (by simp)]
        exact first.trimmed.between (ih (by simp) later) _
  rw [Text.trim, trimBy_of_trimmed trimmed, String.ofList_toList]

/-! ## Enumerations -/

/-- The pieces of an enumeration, of which so much has come before the first value. -/
def enumPieces (front : List Char) : List String → List (List Char)
  | [] => [front ++ [')']]
  | [value] => [front ++ value.toList ++ [')']]
  | value :: rest => (front ++ value.toList) :: enumPieces [] rest

theorem intercalate_enumPieces (front : List Char) (values : List String) :
    bar.toList.intercalate (enumPieces front values) =
      front ++ bar.toList.intercalate (values.map String.toList) ++ [')'] := by
  induction values generalizing front with
  | nil => simp [enumPieces]
  | cons value rest ih =>
    cases rest with
    | nil => simp [enumPieces]
    | cons next rest =>
      have pieces : enumPieces [] (next :: rest) ≠ [] := by cases rest <;> simp [enumPieces]
      rw [enumPieces.eq_3 _ _ _ (by simp), List.intercalate_cons_of_ne_nil pieces, ih]
      simp only [List.map_cons, List.intercalate_cons_cons, List.nil_append, List.append_assoc]

theorem closing_enumPieces {opened : Int} {front : List Char} {values : List String}
    (opens : opened + balance front = 1) (nonempty : values ≠ [])
    (listable : ∀ value ∈ values, Listable value) : Closing opened (enumPieces front values) := by
  induction values generalizing opened front with
  | nil => contradiction
  | cons value rest ih =>
    obtain ⟨first, later⟩ := List.forall_mem_cons.mp listable
    have level := first.level
    simp only [balance] at opens level ⊢
    cases rest with
    | nil =>
      simp only [enumPieces, Closing, balance, List.count_append, List.count_singleton]
      simp
      omega
    | cons next rest =>
      have pieces : enumPieces [] (next :: rest) ≠ [] := by cases rest <;> simp [enumPieces]
      have after : opened + balance (front ++ value.toList) = 1 := by
        simp only [balance, List.count_append]
        omega
      rw [enumPieces.eq_3 _ _ _ (by simp), Closing.eq_3 _ _ _ (by simpa using pieces), after]
      exact ⟨by omega, ih (by simp [balance]) (by simp) later⟩

theorem barless_enumPieces {front : List Char} {values : List String} (noBlank : ' ' ∉ front)
    (nonempty : values ≠ []) (listable : ∀ value ∈ values, Listable value) :
    ∀ piece ∈ enumPieces front values, Barless piece := by
  induction values generalizing front with
  | nil => contradiction
  | cons value rest ih =>
    obtain ⟨first, later⟩ := List.forall_mem_cons.mp listable
    have begun := first.barless.append_left noBlank
    cases rest with
    | nil => simpa [enumPieces] using begun.append_bracket
    | cons next rest =>
      rw [enumPieces.eq_3 _ _ _ (by simp), List.forall_mem_cons]
      exact ⟨begun, ih List.not_mem_nil (by simp) later⟩

/-- The text before the first value of an enumeration. -/
def enumFront : List Char := ['e', 'n', 'u', 'm', '(']

theorem toList_ofEnum (values : List String) :
    (ofEnum values).toList =
      enumFront ++ bar.toList.intercalate ((ascending values).map String.toList) ++ [')'] := by
  simp [ofEnum, enumFront, String.toList_append, String.toList_intercalate]

theorem ascending_ne_nil {values : List String} (nonempty : values ≠ []) :
    ascending values ≠ [] := by
  obtain ⟨value, member⟩ := List.exists_mem_of_ne_nil values nonempty
  exact List.ne_nil_of_mem (mem_ascending.mpr member)

theorem whole_ofEnum {values : List String} (nonempty : values ≠ [])
    (listable : ∀ value ∈ values, Listable value) : Whole (ofEnum values) where
  trimmed := by
    rw [toList_ofEnum]
    exact ⟨⟨'e', rfl, by decide⟩, ')', by simp, by decide⟩
  grouped := by
    have sorted : ∀ value ∈ ascending values, Listable value := fun value member =>
      listable value (mem_ascending.mp member)
    refine ⟨enumPieces enumFront (ascending values), ?_, ?_, ?_⟩
    · exact closing_enumPieces (by decide) (ascending_ne_nil nonempty) sorted
    · exact barless_enumPieces (by decide) (ascending_ne_nil nonempty) sorted
    · rw [intercalate_enumPieces, toList_ofEnum]

theorem split_of_whole {text : String} (whole : Whole text) : split text = [text] := by
  simpa using split_intercalate [text] (by simp) (by simpa using whole)

/-- An enumeration of such texts is read back as its distinct values in order. -/
theorem enumValues?_ofEnum {values : List String} (nonempty : values ≠ [])
    (listable : ∀ value ∈ values, Listable value) :
    enumValues? (ofEnum values) = some (ascending values) := by
  have sorted : ∀ value ∈ ascending values, Listable value := fun value member =>
    listable value (mem_ascending.mp member)
  have body : enumBody? (ofEnum values).toList =
      some (bar.toList.intercalate ((ascending values).map String.toList)) := by
    rw [toList_ofEnum]
    simp [enumFront, enumBody?]
  have cut : cutBars (bar.toList.intercalate ((ascending values).map String.toList)) =
      (ascending values).map String.toList := by
    refine cutBars_intercalate _ (by simpa using ascending_ne_nil nonempty) ?_
    simpa using fun value member => (sorted value member).barless
  simp only [enumValues?, body, split_of_whole (whole_ofEnum nonempty listable),
    List.length_singleton, if_true, cut, List.map_map, Option.some.injEq]
  refine (List.map_congr_left fun value member => ?_).trans (List.map_id _)
  simp [(sorted value member).trimmed]

theorem enumValues?_of_bare {text : String} (bare : enumBody? text.toList = none) :
    enumValues? text = none := by
  simp [enumValues?, bare]

end SchemaInference.Label
