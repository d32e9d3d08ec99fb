import SchemaInference.Proofs.KeyConventions
import SchemaInference.Proofs.Synthesis

/-! What a check reaches of a map. A record's check comes to every entry; an object's check comes to
one entry for every text that is a key, the last one with that text. So a strict object that accepts
a map declares all its keys, but an entry before another whose key has the same text is not
checked. -/
namespace SchemaInference.Schema

theorem check_eq_ok_nil {s : Schema} {v : Value} :
    s.check v = .ok [] ↔ s.unreadable? v = none ∧ s.accepts v = true := by
  rw [check, accepts, List.isEmpty_iff]
  cases s.unreadable? v <;> simp

/-- A check does not stop at an entry whose key its rule takes, but perhaps inside the value. -/
private theorem entry_unreadable_iff {rule : Option KeyRule} {value : Schema} {key : String}
    {item : Value} (admitted : ∀ r, rule = some r → r.admits key = true) :
    (match rule with
      | some r =>
        if r.fault?.isSome then some r
        else if r.admits key then value.unreadable? item else none
      | none => value.unreadable? item) = none ↔
      (∀ r, rule = some r → r.WellFormed) ∧ value.unreadable? item = none := by
  cases rule with
  | none => simp
  | some r =>
    simp only [admitted r rfl, if_true, Option.some.injEq, forall_eq', KeyRule.WellFormed]
    cases r.fault? <;> simp

/-- A record accepts a map exactly if its rule takes every key and its schema every value. -/
theorem check_record {pattern : Option String} {rule : Option KeyRule} {value : Schema} {v : Value}
    {entries : List (String × Value)} (isMap : v.entries? = some entries) :
    (record pattern rule value).check v = .ok [] ↔ ∀ entry ∈ entries,
      (∀ r, rule = some r → r.WellFormed ∧ r.admits entry.1 = true) ∧
        value.check entry.2 = .ok [] := by
  simp only [check_eq_ok_nil, accepts_record, unreadable?, isMap, Option.getD_some,
    List.findSome?_eq_none_iff, Option.some.injEq, exists_eq_left']
  constructor
  · rintro ⟨readable, accepted⟩ entry member
    obtain ⟨admitted, accepted⟩ := accepted entry member
    obtain ⟨wellFormed, below⟩ := (entry_unreadable_iff admitted).mp (readable entry member)
    exact ⟨fun r isRule => ⟨wellFormed r isRule, admitted r isRule⟩, below, accepted⟩
  · intro each
    refine ⟨fun entry member => ?_, fun entry member => ?_⟩
    · obtain ⟨rules, below, -⟩ := each entry member
      exact (entry_unreadable_iff fun r isRule => (rules r isRule).2).mpr
        ⟨fun r isRule => (rules r isRule).1, below⟩
    · obtain ⟨rules, -, accepted⟩ := each entry member
      exact ⟨fun r isRule => (rules r isRule).2, accepted⟩

/-- An object accepts a map exactly if each field accepts the last value under its name, or may be
missing where there is none, and if all keys are declared should it be strict. -/
theorem check_object {shape : List (String × Bool × Schema)} {strict : Bool} {v : Value}
    {entries : List (String × Value)} (isMap : v.entries? = some entries) :
    (object shape strict).check v = .ok [] ↔
      (∀ field ∈ shape,
        (∀ item, lastUnder field.1 entries = some item → field.2.2.check item = .ok []) ∧
          (lastUnder field.1 entries = none → field.2.1 = true)) ∧
      (strict = true → ∀ name ∈ Assoc.keys entries, name ∈ Assoc.keys shape) := by
  simp only [check_eq_ok_nil, accepts_object, unreadable?, isMap, Option.getD_some,
    unreadableField?_eq_none_iff, Assoc.find?_ofPairs, Option.some.injEq, exists_eq_left']
  rw [← and_assoc]
  refine and_congr_left fun _ => ?_
  constructor
  · rintro ⟨readable, accepted⟩ field member
    obtain ⟨present, absent⟩ := accepted field member
    exact ⟨fun item last => ⟨readable field member item last, present item last⟩, absent⟩
  · intro each
    refine ⟨fun field member item last => ?_, fun field member => ?_⟩
    · exact ((each field member).1 item last).1
    · exact ⟨fun item last => ((each field member).1 item last).2, (each field member).2⟩

/-- The last entry with a text is the one that is found under it. -/
theorem lastUnder_of_last {before after : List (String × Value)} {name : String} {item : Value}
    (last : name ∉ Assoc.keys after) :
    lastUnder name (before ++ (name, item) :: after) = some item := by
  have none : Assoc.find? name after.reverse = Option.none :=
    Assoc.find?_eq_none_iff.mpr (by simpa [Assoc.keys] using last)
  rw [lastUnder, List.reverse_append, List.reverse_cons, Assoc.find?_append, Assoc.find?_append,
    none]
  simp [Assoc.find?_cons]

/-- A strict object that accepts a map declares every key, and accepts every value that no later one
has a key with the same text; a record that accepts it takes every key and every value. -/
theorem entries_checked {form : MapForm} {entries : List (Value × Value)} :
    (∀ shape, (object shape true).check (.map form entries) = .ok [] →
      ∀ before key item after, entries = before ++ (key, item) :: after →
        ∃ optional s, (key.alone, optional, s) ∈ shape ∧
          ((∀ later ∈ after, later.1.alone ≠ key.alone) → s.check item = .ok [])) ∧
    (∀ pattern rule value, (record pattern rule value).check (.map form entries) = .ok [] →
      ∀ key item, (key, item) ∈ entries →
        (∀ r, rule = some r → r.WellFormed ∧ r.admits key.alone = true) ∧
          value.check item = .ok []) := by
  let written := entries.map fun entry => (entry.1.alone, entry.2)
  have isMap : (Value.map form entries).entries? = some written := rfl
  constructor
  · rintro shape accepted before key item after rfl
    obtain ⟨fields, declared⟩ := (check_object isMap).mp accepted
    have isKey : key.alone ∈ Assoc.keys written := by simp [written, Assoc.keys]
    obtain ⟨⟨name, optional, s⟩, member, same⟩ := List.mem_map.mp (declared rfl _ isKey)
    obtain rfl : name = key.alone := same
    refine ⟨optional, s, member, fun last => (fields _ member).1 item ?_⟩
    have parts : written = before.map (fun entry => (entry.1.alone, entry.2)) ++
        (key.alone, item) :: after.map fun entry => (entry.1.alone, entry.2) := by simp [written]
    rw [parts]
    exact lastUnder_of_last (by simpa [Assoc.keys] using last)
  · intro pattern rule value accepted key item member
    exact (check_record isMap).mp accepted (key.alone, item) (List.mem_map_of_mem member)

/-- The keys `1` and `"1"` have one text, so that an object with one field takes both; a record
takes one entry. -/
theorem entries_checked_of_two_ones :
    ((object [("1", false, .scalar "number")] true).check
        (.map .plain [(.number (.int 1), .text "x"), (.text "1", .number (.int 5))]) = .ok [] ∧
      ∃ optional s, ("1", optional, s) ∈ [("1", false, Schema.scalar "number")] ∧
        s.check (.number (.int 5)) = .ok []) ∧
      (record (some "prefixed") (some (KeyPattern.stemRule "a")) (.scalar "number")).check
        (.map .plain [(.text "a_b", .number (.int 5))]) = .ok [] ∧
      (KeyPattern.stemRule "a").WellFormed ∧ (KeyPattern.stemRule "a").admits "a_b" = true ∧
      (scalar "number").check (.number (.int 5)) = .ok [] := by
  have ones : (object [("1", false, .scalar "number")] true).check
      (.map .plain [(.number (.int 1), .text "x"), (.text "1", .number (.int 5))]) = .ok [] := rfl
  obtain ⟨optional, s, member, checked⟩ := entries_checked.1 _ ones
    [(.number (.int 1), .text "x")] (.text "1") (.number (.int 5)) [] rfl
  have wellFormed : (KeyPattern.stemRule "a").WellFormed :=
    KeyPattern.rule?_wellFormed (KeyPattern.rule?_prefixed (by decide))
  have admitted : (KeyPattern.stemRule "a").admits "a_b" = true := by decide +kernel
  have prefixed : (record (some "prefixed") (some (KeyPattern.stemRule "a"))
      (.scalar "number")).check (.map .plain [(.text "a_b", .number (.int 5))]) = .ok [] := by
    refine (check_record rfl).mpr fun entry member => ?_
    obtain rfl := List.mem_singleton.mp member
    exact ⟨fun r isRule => Option.some.inj isRule ▸ ⟨wellFormed, admitted⟩, rfl⟩
  obtain ⟨rules, number⟩ := entries_checked.2 _ _ _ prefixed (.text "a_b") (.number (.int 5))
    (List.mem_singleton.mpr rfl)
  exact ⟨⟨ones, optional, s, member, checked (by simp)⟩, prefixed, (rules _ rfl).1,
    (rules _ rfl).2, number⟩

/-- An object accepts two entries whose keys have one text, although its field does not accept the
first of them. -/
theorem first_of_two_ones_not_checked :
    (object [("1", false, .scalar "number")] true).check
        (.map .plain [(.number (.int 1), .text "x"), (.text "1", .number (.int 5))]) = .ok [] ∧
      ¬ ∃ optional s, ((Value.number (.int 1)).alone, optional, s) ∈
          [("1", false, Schema.scalar "number")] ∧ s.check (.text "x") = .ok [] := by
  refine ⟨rfl, ?_⟩
  rintro ⟨optional, s, member, checked⟩
  obtain ⟨-, -, rfl⟩ : _ ∧ _ ∧ s = .scalar "number" := by simpa using member
  cases checked

end SchemaInference.Schema
