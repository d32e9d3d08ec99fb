import SchemaInference.Proofs.Acceptance
import SchemaInference.Proofs.Collection
import SchemaInference.Schema.Validate

/-! Checks step by step. Besides the key rules that it reads, a check is refused nothing but a key
that cannot be written and what is nested too deep. Where neither comes in the way, it stops at the
same rule, or finds the same issues, as a check that takes every key for written. -/
namespace SchemaInference

/-- Writing a key of a map in a value takes a step, after some calls. -/
def Value.KeyStep (v : Value) (step : Step) : Prop :=
  ∃ path form entries, v.Holds path (.map form entries) ∧
    ∃ entry ∈ entries, ∃ height, step ∈ entry.1.aloneSteps height

/-- A map in a value has a key that is refused when it is written, however much room there is. -/
def Value.HoldsKeyRefused (v : Value) (cause : Refusal) : Prop := v.KeyStep (.refusal cause)

/-- A step writes a key of a map in a value, or it nests no more than so many calls. -/
def Value.FewCalls (v : Value) (bound : Nat) (step : Step) : Prop :=
  v.KeyStep step ∨ ∃ calls ≤ bound, step = .call calls

namespace Value
variable {v w : Value} {step : Step}

theorem KeyStep.within {path : Path} (inside : w.KeyStep step) (holds : v.Holds path w) :
    v.KeyStep step := by
  obtain ⟨below, form, entries, deeper, key⟩ := inside
  exact ⟨path ++ below, form, entries, holds.trans deeper, key⟩

theorem KeyStep.of_entry {form : MapForm} {entries : List (Value × Value)} {entry : Value × Value}
    (member : entry ∈ entries) {height : Nat} (written : step ∈ entry.1.aloneSteps height) :
    (Value.map form entries).KeyStep step :=
  ⟨[], form, entries, .here _, entry, member, height, written⟩

theorem FewCalls.call {bound calls : Nat} (few : calls ≤ bound) : v.FewCalls bound (.call calls) :=
  .inr ⟨calls, few, rfl⟩

/-- A step within a value is one of the value around it, where more calls may be nested. -/
theorem FewCalls.within {path : Path} {bound more : Nat} (inside : w.FewCalls bound step)
    (holds : v.Holds path w) (fewer : bound ≤ more) : v.FewCalls more step := by
  obtain key | ⟨calls, few, same⟩ := inside
  · exact .inl (key.within holds)
  · exact .inr ⟨calls, Nat.le_trans few fewer, same⟩

end Value

namespace Schema

/-- The key rule that a step of a check comes to, if it cannot be read. -/
def CheckStep.unread? : CheckStep → Option KeyRule
  | .plain _ => none
  | .rule r => if r.fault?.isSome then some r else none

/-- The steps of a check end in a refusal of one of them, or in the first rule that cannot be read,
if there is one. -/
theorem fault?_cases (room : Room) (steps : List CheckStep) :
    (∃ step cause, .plain step ∈ steps ∧ step.refusal? room = some cause ∧
      steps.findSome? (CheckStep.fault? room) = some (.refused cause)) ∨
    steps.findSome? (CheckStep.fault? room) = (steps.findSome? CheckStep.unread?).map .rule := by
  induction steps with
  | nil => exact .inr rfl
  | cons first rest ih =>
    have later (unrefused : CheckStep.fault? room first = none)
        (read : CheckStep.unread? first = none) :
        (∃ step cause, .plain step ∈ first :: rest ∧ step.refusal? room = some cause ∧
          (first :: rest).findSome? (CheckStep.fault? room) = some (.refused cause)) ∨
        (first :: rest).findSome? (CheckStep.fault? room) =
          ((first :: rest).findSome? CheckStep.unread?).map .rule := by
      rw [List.findSome?_cons, List.findSome?_cons, unrefused, read]
      exact ih.imp_left fun ⟨step, cause, member, found⟩ =>
        ⟨step, cause, List.mem_cons_of_mem _ member, found⟩
    cases first with
    | plain step =>
      cases refused : step.refusal? room with
      | none => exact later (by simp [CheckStep.fault?, refused]) rfl
      | some cause =>
        exact .inl ⟨step, cause, List.mem_cons_self, refused, by simp [CheckStep.fault?, refused]⟩
    | rule r =>
      by_cases stops : r.fault?.isSome = true
      · exact .inr (by simp [CheckStep.fault?, CheckStep.unread?, stops])
      · exact later (if_neg stops) (if_neg stops)

/-! ## The rules on the way -/

/-- What is looked for in the steps of some things in order is found in those of one of them. -/
private theorem findSome?_flatMap {α β γ : Type} (found? : β → Option γ) (stepsOf : α → List β)
    (things : List α) : (things.flatMap stepsOf).findSome? found? =
      things.findSome? fun thing => (stepsOf thing).findSome? found? := by
  induction things with
  | nil => rfl
  | cons thing rest ih =>
    rw [List.flatMap_cons, List.findSome?_append, ih, List.findSome?_cons]
    cases (stepsOf thing).findSome? found? <;> rfl

theorem unread?_keySteps (height : Nat) (key : Value) :
    (keySteps height key).findSome? CheckStep.unread? = none := by
  rw [keySteps, List.findSome?_map, List.findSome?_eq_none_iff]
  exact fun _ _ => rfl

theorem unread?_memberSteps {members : List Schema} {v : Value} {height : Nat}
    (each : ∀ s ∈ members, (s.stepsAt height v).findSome? CheckStep.unread? = s.unreadable? v) :
    (memberSteps height members v).findSome? CheckStep.unread? = unreadableMember? members v := by
  induction members with
  | nil => rfl
  | cons s rest ih =>
    obtain ⟨first, later⟩ := List.forall_mem_cons.mp each
    rw [memberSteps, List.findSome?_append, first, unreadableMember?]
    cases s.unreadable? v with
    | some r => rfl
    | none =>
      cases s.accepts v with
      | true => rfl
      | false => exact ih later

/-- No field has a rule that cannot be read if no value that is there has. -/
theorem unreadableField?_eq_none_iff {present : List (String × Value)}
    {shape : List (String × Bool × Schema)} :
    unreadableField? present shape = none ↔ ∀ field ∈ shape, ∀ item,
      Assoc.find? field.1 present = some item → field.2.2.unreadable? item = none := by
  induction shape with
  | nil => simp [unreadableField?]
  | cons field rest ih =>
    obtain ⟨name, optional, s⟩ := field
    rw [List.forall_mem_cons, ← ih, unreadableField?]
    cases Assoc.find? name present with
    | none => simp
    | some item => cases stops : s.unreadable? item <;> simp [stops]

theorem unread?_fieldSteps {present : List (String × Value)}
    {shape : List (String × Bool × Schema)} {height : Nat}
    (each : ∀ field ∈ shape, ∀ v,
      (field.2.2.stepsAt height v).findSome? CheckStep.unread? = field.2.2.unreadable? v) :
    (fieldSteps height present shape).findSome? CheckStep.unread? =
      unreadableField? present shape := by
  induction shape with
  | nil => rfl
  | cons field rest ih =>
    obtain ⟨name, optional, s⟩ := field
    obtain ⟨first, later⟩ := List.forall_mem_cons.mp each
    rw [fieldSteps, List.findSome?_append, ih later, unreadableField?]
    cases Assoc.find? name present with
    | none => cases optional <;> rfl
    | some v =>
      rw [Option.bind_some, ← first v]
      cases (s.stepsAt height v).findSome? CheckStep.unread? <;> rfl

/-- A check comes to the rules in the order in which it looks for one that cannot be read. -/
theorem unread?_stepsAt (s : Schema) (height : Nat) (v : Value) :
    (s.stepsAt height v).findSome? CheckStep.unread? = s.unreadable? v := by
  have onwards (step : Step) (steps : List CheckStep) :
      (.plain step :: steps).findSome? CheckStep.unread? = steps.findSome? CheckStep.unread? := rfl
  induction s using Schema.ind generalizing height v with
  | any => rfl
  | scalar tag => rw [stepsAt, onwards]; split <;> rfl
  | enum values => rw [stepsAt, onwards]; split <;> rfl
  | nullable inner ih =>
    rw [stepsAt, onwards, unreadable?]
    split
    · rfl
    · exact ih _ v
  | union members ih =>
    rw [stepsAt, onwards, List.findSome?_append,
      unread?_memberSteps fun s member => ih s member _ v, unreadable?]
    split <;> simp [mismatchStep, CheckStep.unread?]
  | list element ih =>
    cases v with
    | list form items =>
      rw [stepsAt, onwards, findSome?_flatMap]
      simp only [ih]
      rfl
    | _ => rfl
  | record pattern rule value ih =>
    cases v with
    | map form entries =>
      rw [stepsAt, onwards, findSome?_flatMap, unreadable?, Value.entries?, Option.getD_some,
        List.findSome?_map]
      congr 1
      funext entry
      rw [List.findSome?_append, unread?_keySteps, Option.none_or]
      cases rule with
      | none => exact ih _ _
      | some r =>
        by_cases stops : r.fault?.isSome = true
        · simp [CheckStep.unread?, stops]
        · by_cases admitted : r.admits entry.1.alone = true
          · simp [CheckStep.unread?, stops, admitted, ih]
          · simp [CheckStep.unread?, stops, admitted]
    | _ => rfl
  | object shape strict ih =>
    cases v with
    | map form entries =>
      have keys : (entries.flatMap fun entry => keySteps (height + 2) entry.1).findSome?
          CheckStep.unread? = none := by
        rw [findSome?_flatMap, List.findSome?_eq_none_iff]
        exact fun entry _ => unread?_keySteps _ _
      rw [stepsAt, onwards, List.findSome?_append, keys, Option.none_or]
      exact unread?_fieldSteps fun field member item => ih field member _ item
    | _ => exact (unreadableField?_eq_none_iff.mpr (by rintro _ - _ ⟨⟩)).symm

/-! ## The other steps on the way -/

theorem memberLabelCalls_le_iff {bound : Nat} {members : List Schema} :
    memberLabelCalls members ≤ bound ↔ ∀ s ∈ members, s.labelCalls ≤ bound := by
  induction members with
  | nil => simp [memberLabelCalls]
  | cons first rest ih => rw [memberLabelCalls, Nat.max_le, ih, List.forall_mem_cons]

theorem fieldLabelCalls_le_iff {bound : Nat} {shape : List (String × Bool × Schema)} :
    fieldLabelCalls shape ≤ bound ↔ ∀ field ∈ shape, field.2.2.labelCalls ≤ bound := by
  induction shape with
  | nil => simp [fieldLabelCalls]
  | cons first rest ih => rw [fieldLabelCalls, Nat.max_le, ih, List.forall_mem_cons]

theorem plain_mem_keySteps {step : Step} {height : Nat} {key : Value}
    (member : .plain step ∈ keySteps height key) : step ∈ key.aloneSteps height := by
  obtain ⟨_, among, same⟩ := List.mem_map.mp member
  cases same
  exact among

theorem plain_mem_memberSteps {step : Step} {members : List Schema} {v : Value} {height : Nat}
    (member : .plain step ∈ memberSteps height members v) :
    ∃ s ∈ members, .plain step ∈ s.stepsAt height v := by
  induction members with
  | nil => cases member
  | cons s rest ih =>
    rw [memberSteps, List.mem_append, List.mem_ite_nil_left] at member
    rcases member with here | ⟨-, later⟩
    · exact ⟨s, List.mem_cons_self, here⟩
    · obtain ⟨other, among, found⟩ := ih later
      exact ⟨other, List.mem_cons_of_mem _ among, found⟩

/-- The steps of checking an entry of a record are those of writing its key, and of checking its
value unless the rule forbids the key. -/
theorem plain_mem_entrySteps {step : Step} {rule : Option KeyRule} {value : Schema} {height : Nat}
    {entry : Value × Value}
    (member : .plain step ∈ keySteps height entry.1 ++ match rule with
      | some r => .rule r :: if r.admits entry.1.alone then value.stepsAt height entry.2 else []
      | none => value.stepsAt height entry.2) :
    step ∈ entry.1.aloneSteps height ∨ .plain step ∈ value.stepsAt height entry.2 := by
  rcases List.mem_append.mp member with key | item
  · exact .inl (plain_mem_keySteps key)
  · right
    cases rule with
    | none => exact item
    | some r =>
      obtain ⟨⟨⟩⟩ | item := List.mem_cons.mp item
      exact (List.mem_ite_nil_right.mp item).2

/-- The steps of checking fields are those of checking the values that are there, and of saying what
is expected of one that is not. -/
theorem plain_mem_fieldSteps {step : Step} {present : List (String × Value)}
    {shape : List (String × Bool × Schema)} {height : Nat}
    (member : .plain step ∈ fieldSteps height present shape) :
    ∃ field ∈ shape, step = .call (height + field.2.2.labelCalls) ∨
      ∃ item, Assoc.find? field.1 present = some item ∧
        .plain step ∈ field.2.2.stepsAt height item := by
  induction shape with
  | nil => cases member
  | cons field rest ih =>
    obtain ⟨name, optional, s⟩ := field
    rw [fieldSteps, List.mem_append] at member
    rcases member with here | later
    · refine ⟨_, List.mem_cons_self, ?_⟩
      dsimp only
      cases found : Assoc.find? name present with
      | none =>
        rw [found] at here
        cases optional with
        | true => cases here
        | false =>
          cases List.mem_singleton.mp here
          exact .inl rfl
      | some item =>
        rw [found] at here
        exact .inr ⟨item, rfl, here⟩
    · obtain ⟨other, among, found⟩ := ih later
      exact ⟨other, List.mem_cons_of_mem _ among, found⟩

/-- The steps of a check enter the value, and come to more. -/
theorem fewCalls_of_entered {v : Value} {height bound : Nat} {rest : List CheckStep} {step : Step}
    (member : .plain step ∈ .plain (.call (height + 1)) :: rest) (some : height + 1 ≤ bound)
    (later : .plain step ∈ rest → v.FewCalls bound step) : v.FewCalls bound step := by
  rcases List.mem_cons.mp member with ⟨⟨⟩⟩ | below
  · exact .call some
  · exact later below

/-- A check that does not look into a value may say that it is not what is accepted. -/
theorem fewCalls_of_mismatch {s : Schema} {v : Value} {height : Nat} {step : Step}
    (member : .plain step ∈ [.plain (.call (height + 1)), mismatchStep height s]) :
    v.FewCalls (height + s.labelCalls + 2) step := by
  refine fewCalls_of_entered member (by omega) fun below => ?_
  cases List.mem_singleton.mp below
  exact .call (by omega)

/-- Besides the rules that it reads, a check takes the steps of writing keys, and calls, of which
two more are nested than in writing the label of the schema. -/
theorem fewCalls_of_mem_stepsAt {s : Schema} {v : Value} {height : Nat} {step : Step}
    (member : .plain step ∈ s.stepsAt height v) : v.FewCalls (height + s.labelCalls + 2) step := by
  induction s using Schema.ind generalizing height v with
  | any =>
    cases List.mem_singleton.mp member
    exact .call (by omega)
  | scalar tag =>
    rw [stepsAt] at member
    split at member
    · exact fewCalls_of_entered member (by omega) (nomatch ·)
    · exact fewCalls_of_mismatch member
  | enum values =>
    rw [stepsAt] at member
    split at member
    · exact fewCalls_of_entered member (by omega) (nomatch ·)
    · exact fewCalls_of_mismatch member
  | nullable inner ih =>
    have label : (Schema.nullable inner).labelCalls = 1 + inner.labelCalls := by rw [labelCalls]
    rw [stepsAt] at member
    refine fewCalls_of_entered member (by omega) fun below => ?_
    exact (ih (List.mem_ite_nil_left.mp below).2).within (.here v) (by omega)
  | union members ih =>
    have label : (Schema.union members).labelCalls = 2 + memberLabelCalls members := by
      rw [labelCalls]
    rw [stepsAt] at member
    refine fewCalls_of_entered member (by omega) fun below => ?_
    rcases List.mem_append.mp below with tried | mismatch
    · obtain ⟨s, among, below⟩ := plain_mem_memberSteps tried
      have := memberLabelCalls_le_iff.mp (Nat.le_refl _) s among
      exact (ih s among below).within (.here v) (by omega)
    · exact fewCalls_of_mismatch (List.mem_cons_of_mem _ (List.mem_ite_nil_left.mp mismatch).2)
  | list element ih =>
    cases v with
    | list form items =>
      have label : (Schema.list element).labelCalls = 1 + element.labelCalls := by rw [labelCalls]
      rw [stepsAt] at member
      refine fewCalls_of_entered member (by omega) fun below => ?_
      obtain ⟨item, among, below⟩ := List.mem_flatMap.mp below
      obtain ⟨i, found⟩ := List.mem_iff_getElem?.mp among
      exact (ih below).within (.item found (.here item)) (by omega)
    | _ => exact fewCalls_of_mismatch member
  | record pattern rule value ih =>
    cases v with
    | map form entries =>
      have label : (Schema.record pattern rule value).labelCalls = 1 + value.labelCalls := by
        rw [labelCalls]
      rw [stepsAt] at member
      refine fewCalls_of_entered member (by omega) fun below => ?_
      obtain ⟨entry, among, below⟩ := List.mem_flatMap.mp below
      obtain key | item := plain_mem_entrySteps below
      · exact .inl (.of_entry among key)
      · exact (ih item).within (.entry among (.here entry.2)) (by omega)
    | _ => exact fewCalls_of_mismatch member
  | object shape strict ih =>
    cases v with
    | map form entries =>
      have label : (Schema.object shape strict).labelCalls = 2 + fieldLabelCalls shape := by
        rw [labelCalls]
      rw [stepsAt] at member
      refine fewCalls_of_entered member (by omega) fun below => ?_
      rcases List.mem_append.mp below with keys | fields
      · obtain ⟨entry, among, key⟩ := List.mem_flatMap.mp keys
        exact .inl (.of_entry among (plain_mem_keySteps key))
      · obtain ⟨field, isField, found⟩ := plain_mem_fieldSteps fields
        have := fieldLabelCalls_le_iff.mp (Nat.le_refl _) field isField
        obtain rfl | ⟨item, present, below⟩ := found
        · exact .call (by omega)
        · rw [Assoc.find?_ofPairs] at present
          have paired := List.mem_reverse.mp (Assoc.mem_of_find? present)
          obtain ⟨entry, among, isEntry⟩ := List.mem_map.mp paired
          obtain rfl : entry.2 = item := congrArg Prod.snd isEntry
          exact (ih field isField below).within (.entry among (.here entry.2)) (by omega)
    | _ => exact fewCalls_of_mismatch member

/-- A check with little room or much stops where a key in the document cannot be written or it comes
to a call that does not fit, or it comes to the same end as a check that takes every key for
written. -/
theorem validate_cases (s : Schema) (v : Value) (room : Room) :
    (∃ cause, s.validate v room = .error (.refused cause) ∧
      (v.HoldsKeyRefused cause ∨ cause = .tooDeep ∧
        ∃ height, .plain (.call height) ∈ s.stepsAt 0 v ∧ room.fits height = false)) ∨
    s.validate v room = (s.check v).mapError .rule := by
  unfold validate check
  rcases fault?_cases room (s.stepsAt 0 v) with ⟨step, cause, member, refused, found⟩ | same
  · refine .inl ⟨cause, by rw [found], ?_⟩
    rcases Step.refusal?_eq_some_iff.mp refused with rfl | ⟨isDeep, height, rfl, unfit⟩
    · obtain key | ⟨_, -, ⟨⟩⟩ := fewCalls_of_mem_stepsAt member
      exact .inl key
    · exact .inr ⟨isDeep, height, member, unfit⟩
  · rw [same, unread?_stepsAt]
    right
    cases s.unreadable? v <;> rfl

end Schema
end SchemaInference
