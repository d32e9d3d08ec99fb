import Mathlib.Data.List.DropRight
import SchemaInference.Proofs.LabelMeaning

/-! Splitting takes a label apart and loses nothing of it. Its bars are taken from the left, and the
label is cut at those where nothing is open of what was opened since the last cut, whether its
brackets match or not. What is cut so has no member but itself, and this stays so when the blanks
around it go, even if they were part of a bar. Hence the members of a label need no splitting in
turn, and its schema is made of theirs. -/
namespace SchemaInference

namespace Label

/-- The pieces of a text between its bars, taken from the left so that no two overlap: no bar ends
sooner than the one behind a piece, and there is none in the last piece. -/
inductive Cut : List Char → List (List Char) → Prop where
  | last {piece : List Char} (free : ¬ bar.toList <:+: piece) : Cut piece [piece]
  | next {piece rest : List Char} {pieces : List (List Char)}
    (first : ¬ bar.toList <:+: piece ++ [' ', '|']) (further : Cut rest pieces) :
    Cut (piece ++ bar.toList ++ rest) (piece :: pieces)

/-- The pieces of a text in groups. At a bar inside a group, the group has opened more brackets so
far than it has closed; at a bar between two groups, the one before has not. -/
structure Partition (cs : List Char) (groups : List (List (List Char))) : Prop where
  pieces : Cut cs groups.flatten
  filled : ∀ group ∈ groups, group ≠ []
  held : ∀ group ∈ groups, ∀ front back, group = front ++ back → front ≠ [] → back ≠ [] →
    0 < balance (bar.toList.intercalate front)
  closed : ∀ group ∈ groups.dropLast, balance (bar.toList.intercalate group) ≤ 0

/-- The text of a group, with the bars inside it. -/
def textOf (group : List (List Char)) : String := String.ofList (bar.toList.intercalate group)

variable {cs piece rest : List Char} {pieces front back group : List (List Char)}
  {groups : List (List (List Char))} {opened : Int}

/-! ## Bars from the left -/

theorem Cut.cutBars_eq (cut : Cut cs pieces) : cutBars cs = pieces := by
  induction cut with
  | last free => exact cutBars_of_no_bar free
  | next first further ih => rw [cutBars_of_first_bar first, ih]

theorem cut_cutBars (cs : List Char) : Cut cs (cutBars cs) := by
  fun_induction cutBars cs with
  | case1 rest ih =>
    have first : ¬ bar.toList <:+: [] ++ [' ', '|'] := by rw [toList_bar]; decide
    exact .next first ih
  | case2 c rest _ none => exact absurd none (cutBars_ne_nil rest)
  | case3 c rest noBar piece pieces found ih =>
    rw [found] at ih
    have here : ¬ bar.toList <+: c :: rest := by
      rintro ⟨after, same⟩
      obtain ⟨rfl, rfl⟩ := List.cons.inj same
      exact noBar after rfl rfl
    cases ih with
    | last free => exact .last fun inside => (List.infix_cons_iff.mp inside).elim here free
    | @next _ rest _ first further =>
      refine @Cut.next (c :: piece) _ _ (fun inside => ?_) further
      rcases List.infix_cons_iff.mp inside with begins | later
      · exact here (begins.trans (before_bar_ends (c :: piece) rest))
      · exact first later
  | case4 => exact .last (by rw [toList_bar]; decide)

/-- Pieces at the front are those of the text that they make up. -/
theorem Cut.of_front (cut : Cut cs (front ++ back)) (filled : front ≠ []) :
    Cut (bar.toList.intercalate front) front := by
  induction front generalizing cs with
  | nil => contradiction
  | cons piece front ih =>
    cases front with
    | nil =>
      rw [List.intercalate_singleton]
      cases cut with
      | last free => exact .last free
      | next first further =>
        exact .last fun inside => first (inside.trans (List.prefix_append piece _).isInfix)
    | cons second front =>
      cases cut with
      | next first further =>
        rw [List.intercalate_cons_of_ne_nil (List.cons_ne_nil _ _)]
        exact .next first (ih further (List.cons_ne_nil _ _))

/-- Pieces at the back are those of the text that they make up. -/
theorem Cut.of_back (cut : Cut cs (front ++ back)) (filled : back ≠ []) :
    Cut (bar.toList.intercalate back) back := by
  induction front generalizing cs with
  | nil =>
    have same := intercalate_cutBars cs
    rw [cut.cutBars_eq, List.nil_append] at same
    exact same ▸ cut
  | cons piece front ih =>
    rw [List.cons_append] at cut
    generalize below : front ++ back = pieces at ih cut
    cases cut with
    | last => exact absurd (List.append_eq_nil_iff.mp below).2 filled
    | next first further => exact ih further

/-- A group of the pieces of a text is cut into the same pieces again. -/
theorem Cut.cutBars_group (cut : Cut cs groups.flatten) (member : group ∈ groups)
    (filled : group ≠ []) : cutBars (bar.toList.intercalate group) = group := by
  obtain ⟨before, after, rfl⟩ := List.append_of_mem member
  rw [List.flatten_append, List.flatten_cons] at cut
  have onwards := cut.of_back (List.append_ne_nil_of_left_ne_nil filled _)
  exact (onwards.of_front filled).cutBars_eq

/-! ## Open brackets -/

theorem balance_append (front back : List Char) :
    balance (front ++ back) = balance front + balance back := by
  simp only [balance, List.count_append]
  omega

/-- The bars between pieces open and close nothing. -/
theorem balance_intercalate (pieces : List (List Char)) :
    balance (bar.toList.intercalate pieces) = balance pieces.flatten := by
  induction pieces with
  | nil => rfl
  | cons piece rest ih =>
    cases rest with
    | nil => simp
    | cons next rest =>
      have level : balance bar.toList = 0 := by rw [toList_bar]; decide
      rw [List.intercalate_cons_of_ne_nil (List.cons_ne_nil _ _), balance_append, balance_append,
        ih, level, Int.add_zero, ← balance_append, ← List.flatten_cons]

/-- Pieces that stay together when so much is open before them: something is open behind each of
them but the last. -/
def Held (opened : Int) : List (List Char) → Prop
  | [] => True
  | piece :: rest => (rest ≠ [] → 0 < opened + balance piece) ∧ Held (opened + balance piece) rest

theorem held_singleton (opened : Int) (piece : List Char) : Held opened [piece] :=
  ⟨fun filled => absurd rfl filled, trivial⟩

theorem Held.pos (held : Held opened (front ++ back)) (filled : front ≠ [])
    (backFilled : back ≠ []) : 0 < opened + balance front.flatten := by
  induction front generalizing opened with
  | nil => contradiction
  | cons piece front ih =>
    obtain ⟨here, further⟩ := held
    rw [List.flatten_cons, balance_append, ← Int.add_assoc]
    cases front with
    | nil => simpa [balance] using here backFilled
    | cons next front => exact ih further (List.cons_ne_nil _ _)

/-- What stays together makes one group. -/
theorem groupOpen_of_held (held : Held opened pieces) (filled : pieces ≠ []) :
    groupOpen opened pieces = [pieces] := by
  induction pieces generalizing opened with
  | nil => contradiction
  | cons piece rest ih =>
    obtain ⟨here, further⟩ := held
    cases rest with
    | nil => simp [groupOpen]
    | cons next rest =>
      have notClosed : ¬ opened + balance piece ≤ 0 := by
        have := here (List.cons_ne_nil _ _)
        omega
      rw [groupOpen]
      simp only [notClosed, if_false, ih further (List.cons_ne_nil _ _)]

/-- Groups as the pieces of a label fall into, when so much is open before the first: each stays
together, and closes what is open if another comes behind it. -/
def Grouped (opened : Int) : List (List (List Char)) → Prop
  | [] => True
  | group :: groups => group ≠ [] ∧ Held opened group ∧
    (groups ≠ [] → opened + balance group.flatten ≤ 0) ∧ Grouped 0 groups

theorem grouped_groupOpen (opened : Int) (pieces : List (List Char)) :
    Grouped opened (groupOpen opened pieces) := by
  fun_induction groupOpen opened pieces with
  | case1 => trivial
  | case2 opened piece pieces _ closed ih =>
    refine ⟨List.cons_ne_nil _ _, held_singleton _ _, fun _ => ?_, ih⟩
    simpa using closed
  | case3 opened piece pieces _ notClosed none ih =>
    exact ⟨List.cons_ne_nil _ _, held_singleton _ _, fun filled => absurd rfl filled, trivial⟩
  | case4 opened piece pieces _ notClosed group groups found ih =>
    rw [found] at ih
    obtain ⟨filled, held, closed, later⟩ := ih
    refine ⟨List.cons_ne_nil _ _, ⟨fun _ => by omega, held⟩, fun more => ?_, later⟩
    rw [List.flatten_cons, balance_append, ← Int.add_assoc]
    exact closed more

theorem Grouped.held (grouped : Grouped 0 groups) (member : group ∈ groups) : Held 0 group := by
  induction groups with
  | nil => cases member
  | cons first groups ih =>
    obtain ⟨-, held, -, later⟩ := grouped
    rcases List.mem_cons.mp member with rfl | member
    · exact held
    · exact ih later member

theorem Grouped.closed (grouped : Grouped 0 groups) (member : group ∈ groups.dropLast) :
    balance group.flatten ≤ 0 := by
  induction groups with
  | nil => cases member
  | cons first groups ih =>
    obtain ⟨-, -, closed, later⟩ := grouped
    cases groups with
    | nil => cases member
    | cons second groups =>
      rcases List.mem_cons.mp member with rfl | member
      · simpa using closed (List.cons_ne_nil _ _)
      · exact ih later member

/-! ## Trimming -/

theorem rawMembers_of_held (held : Held 0 (cutBars cs)) : rawMembers cs = [cs] := by
  rw [rawMembers, groupOpen_of_held held (cutBars_ne_nil cs), List.map_singleton,
    intercalate_cutBars]

/-- What comes before the pieces counts for them as what is open before them. -/
theorem held_modifyHead (c : Char) (pieces : List (List Char)) :
    Held opened (pieces.modifyHead (c :: ·)) ↔ Held (opened + balance [c]) pieces := by
  cases pieces with
  | nil => exact Iff.rfl
  | cons piece rest =>
    have total : opened + balance (c :: piece) = opened + balance [c] + balance piece := by
      rw [← List.singleton_append, balance_append, Int.add_assoc]
    rw [List.modifyHead_cons, Held, Held, total]

theorem balance_blank {c : Char} (blank : Text.isBlank c = true) : balance [c] = 0 := by
  have notOpening : c ≠ '(' := fun same => absurd (same ▸ blank) (by decide)
  have notClosing : c ≠ ')' := fun same => absurd (same ▸ blank) (by decide)
  simp [balance, notOpening, notClosing]

/-- Blanks at the front open nothing, and one that belongs to a bar would not stay together with
what comes behind it. -/
theorem held_dropWhile (held : Held 0 (cutBars cs)) :
    Held 0 (cutBars (cs.dropWhile Text.isBlank)) := by
  induction cs with
  | nil => exact held
  | cons c rest ih =>
    by_cases blank : Text.isBlank c = true
    · rw [List.dropWhile_cons_of_pos blank]
      apply ih
      by_cases isBar : ∃ after, c :: rest = ' ' :: '|' :: ' ' :: after
      · obtain ⟨after, same⟩ := isBar
        rw [same, cutBars] at held
        exact absurd (held.1 (cutBars_ne_nil after)) (by decide)
      · rw [cutBars_cons c rest fun after same => isBar ⟨after, same⟩, held_modifyHead,
          balance_blank blank] at held
        exact held
    · rwa [List.dropWhile_cons_of_neg blank]

/-- The front of a text stays together if the whole does, wherever it ends. -/
theorem held_front (cut : Cut cs pieces) {tail : List Char}
    (held : Held opened (cutBars (cs ++ tail))) : Held opened pieces := by
  induction cut generalizing opened with
  | last free => exact held_singleton _ _
  | @next piece rest pieces first further ih =>
    rw [List.append_assoc, cutBars_of_first_bar first] at held
    exact ⟨fun _ => held.1 (cutBars_ne_nil _), ih held.2⟩

/-- Trimming leaves together what stays together. -/
theorem held_trimBy (held : Held 0 (cutBars cs)) :
    Held 0 (cutBars (Text.trimBy Text.isBlank cs)) := by
  obtain ⟨tail, whole⟩ : Text.trimBy Text.isBlank cs <+: cs.dropWhile Text.isBlank :=
    List.rdropWhile_prefix Text.isBlank _
  exact held_front (cut_cutBars _) (whole ▸ held_dropWhile held)

/-! ## Members -/

theorem split_eq (label : String) :
    split label =
      (groupOpen 0 (cutBars label.toList)).map fun group => Text.trim (textOf group) := by
  rw [split, rawMembers, List.map_map]
  refine List.map_congr_left fun group _ => ?_
  rw [Function.comp_apply, Text.trim, textOf, String.toList_ofList]

theorem partition_groupOpen (cs : List Char) : Partition cs (groupOpen 0 (cutBars cs)) where
  pieces := by
    rw [flatten_groupOpen]
    exact cut_cutBars cs
  filled group := ne_nil_of_mem_groupOpen
  held group member front back same filled backFilled := by
    have held := (grouped_groupOpen 0 (cutBars cs)).held member
    rw [same] at held
    have pos := held.pos filled backFilled
    rwa [Int.zero_add, ← balance_intercalate] at pos
  closed group member := by
    rw [balance_intercalate]
    exact (grouped_groupOpen 0 (cutBars cs)).closed member

/-- A member has no members but itself. -/
theorem split_member {label member : String} (among : member ∈ split label) :
    split member = [member] := by
  rw [split_eq] at among
  obtain ⟨group, inGroups, rfl⟩ := List.mem_map.mp among
  have cut := (partition_groupOpen label.toList).pieces.cutBars_group inGroups
    (ne_nil_of_mem_groupOpen inGroups)
  have held : Held 0 (cutBars (bar.toList.intercalate group)) :=
    cut.symm ▸ (grouped_groupOpen 0 (cutBars label.toList)).held inGroups
  have whole : rawMembers (Text.trim (textOf group)).toList =
      [(Text.trim (textOf group)).toList] := by
    rw [Text.trim, textOf, String.toList_ofList, String.toList_ofList]
    exact rawMembers_of_held (held_trimBy held)
  rw [split, whole, List.map_singleton]
  exact congrArg (fun text => [text]) (trim_trim (textOf group))

end Label

namespace Schema

/-- The schema of a label, whose members may be labels with members in turn, and so on for so many
levels; `none` if that is not enough. -/
def ofLabelWithin : (levels : Nat) → String → Option Schema
  | 0, _ => none
  | levels + 1, label =>
    let label := Text.trim label
    match Label.enumValues? label with
    | some values => some (.enum values)
    | none =>
      let members := Label.split label
      if 1 < members.length then
        ((members.filter (· != "undefined")).mapM (ofLabelWithin levels)).map anyOf
      else some (if openWords.contains label then .any else .scalar label)

variable {label member : String} {levels : Nat}

theorem mapM_eq_some {α β : Type} {f : α → Option β} {g : α → β} {row : List α}
    (each : ∀ a ∈ row, f a = some (g a)) : row.mapM f = some (row.map g) := by
  induction row with
  | nil => rfl
  | cons a rest ih =>
    obtain ⟨first, later⟩ := List.forall_mem_cons.mp each
    simp [List.mapM_cons, first, ih later]

/-- A label that has no members but itself is read as a member. -/
theorem ofLabelWithin_of_single (trimmed : Text.trim label = label)
    (single : Label.split label = [label]) :
    ofLabelWithin (levels + 1) label = some (ofMember label) := by
  simp only [ofLabelWithin, ofMember, trimmed, single, List.length_singleton, Nat.lt_irrefl,
    if_false]
  cases Label.enumValues? label <;> rfl

theorem trim_member (among : member ∈ Label.split label) : Text.trim member = member := by
  rw [Label.split_eq] at among
  obtain ⟨group, -, rfl⟩ := List.mem_map.mp among
  exact Label.trim_trim _

/-- The members of a label have no members in turn, so that one level of them is enough. -/
theorem ofLabelWithin_eq (levels : Nat) (label : String) :
    ofLabelWithin (levels + 2) label = some (ofLabel label) := by
  by_cases several : 1 < (Label.split (Text.trim label)).length
  · have noEnum : Label.enumValues? (Text.trim label) = none := by
      unfold Label.enumValues?
      split
      · rfl
      · exact if_neg (by omega)
    have each : ∀ member ∈ (Label.split (Text.trim label)).filter (· != "undefined"),
        ofLabelWithin (levels + 1) member = some (ofMember member) := fun member among =>
      have among := (List.mem_filter.mp among).1
      ofLabelWithin_of_single (trim_member among) (Label.split_member among)
    rw [ofLabelWithin, ofLabel]
    simp only [noEnum, several, if_true, mapM_eq_some each, Option.map_some]
  · obtain ⟨member, single⟩ : ∃ member, Label.split (Text.trim label) = [member] := by
      have filled := List.length_pos_iff.mpr (Label.split_ne_nil (Text.trim label))
      exact List.length_eq_one_iff.mp (by omega)
    obtain rfl := Label.eq_of_split_singleton (Label.trim_trim label) single
    have read : ofLabelWithin (levels + 2) (Text.trim label) = some (ofMember (Text.trim label)) :=
      ofLabelWithin_of_single (Label.trim_trim label) single
    rw [ofLabel]
    simp only [several, if_false, ← read, ofLabelWithin, Label.trim_trim]

end Schema

namespace Label

theorem intercalate_textOf (label : String) :
    bar.intercalate ((groupOpen 0 (cutBars label.toList)).map textOf) = label := by
  have texts : ((groupOpen 0 (cutBars label.toList)).map textOf).map String.toList =
      rawMembers label.toList := by
    rw [List.map_map, rawMembers]
    exact List.map_congr_left fun group _ => String.toList_ofList
  rw [← String.toList_inj, String.toList_intercalate, texts, intercalate_rawMembers]

/-- Splitting cuts a label into parts that make it up again with bars between them, and trims them.
Of the bars in it, taken from the left, it cuts at those where nothing is open of what was opened
since the last cut. A member is its own only member; so the schema of a label is that of its
members, none of which has members in turn. -/
theorem split_partitions (label : String) :
    (∃ groups, Partition label.toList groups ∧ bar.intercalate (groups.map textOf) = label ∧
      split label = groups.map fun group => Text.trim (textOf group)) ∧
      (∀ member ∈ split label, split member = [member]) ∧
      ∀ levels, Schema.ofLabelWithin (levels + 2) label = some (Schema.ofLabel label) :=
  ⟨⟨_, partition_groupOpen label.toList, intercalate_textOf label, split_eq label⟩,
    fun _ => split_member, fun levels => Schema.ofLabelWithin_eq levels label⟩

/-- The last bracket stays open, and the blank of the bar behind it goes. -/
theorem split_of_open_bracket :
    let label := " (a | b) | c | ( | "
    split label = ["(a | b)", "c", "( |"] ∧ "( |" ∈ split label ∧ split "( |" = ["( |"] := by
  intro label
  obtain ⟨-, alone, -⟩ := split_partitions label
  have members : split label = ["(a | b)", "c", "( |"] := by decide +kernel
  have among : "( |" ∈ split label := by
    rw [members]
    decide
  exact ⟨members, among, alone _ among⟩

end Label
end SchemaInference
