import Mathlib.Data.List.TakeWhile
import SchemaInference.Proofs.RuleMatching

/-! What the keys of one map have in common, and the rule that a record makes of it. A key that has
been put under a convention follows that convention's rule; a key that has been put under a stem
follows the rule of the stem unless it breaks, with a line feed somewhere after the stem. -/
namespace SchemaInference
namespace KeyPattern
open Regex

/-! ## Patterns of names -/

/-- A stem is shared by all names, and it is not empty. -/
theorem sharedStem_eq_some_iff {names : List String} {shared : String} :
    sharedStem names = some shared ↔
      names ≠ [] ∧ shared ≠ "" ∧ ∀ name ∈ names, stem name = shared := by
  cases names with
  | nil => simp [sharedStem]
  | cons first rest =>
    simp only [sharedStem, Option.ite_none_right_eq_some, Bool.and_eq_true, List.all_eq_true,
      bne_iff_ne, beq_iff_eq, Option.some.injEq, List.forall_mem_cons]
    constructor
    · rintro ⟨⟨filled, same⟩, rfl⟩
      exact ⟨List.cons_ne_nil _ _, filled, rfl, same⟩
    · rintro ⟨-, filled, rfl, same⟩
      exact ⟨⟨filled, same⟩, rfl⟩

/-- Names have one convention, or else a stem decides. -/
theorem ofKeys_eq_some_iff {names : List String} {p : KeyPattern} :
    ofKeys (names.map .key) = some p ↔ names ≠ [] ∧
      ((p ≠ .mixed ∧ ∀ name ∈ names, classify (.key name) = p) ∨
        ((∀ q ≠ mixed, ¬ ∀ name ∈ names, classify (.key name) = q) ∧
          p = if (sharedStem names).isSome then .prefixed else .mixed)) := by
  cases names with
  | nil => simp [ofKeys]
  | cons first rest =>
    have text : (Segment.text ∘ Segment.key) = id := rfl
    have same : ((first :: rest).map Segment.key).map Segment.text = first :: rest := by
      rw [List.map_map, text, List.map_id]
    have notWild : ((first :: rest).map Segment.key).all Segment.isWildcard = false := by simp
    rw [List.map_cons, ofKeys, ← List.map_cons, notWild, same]
    by_cases one : classify (.key first) ≠ .mixed ∧
        ∀ name ∈ rest, classify (.key name) = classify (.key first)
    · have all (q : KeyPattern) : (∀ name ∈ first :: rest, classify (.key name) = q) ↔
          classify (.key first) = q := by
        rw [List.forall_mem_cons, and_iff_left_of_imp]
        rintro rfl
        exact one.2
      have condition : (classify (.key first) != .mixed &&
          (rest.map Segment.key).all fun s => classify s == classify (.key first)) = true := by
        simpa using one
      simp only [condition, all, Bool.false_eq_true, if_false, if_true, Option.some.injEq, ne_eq,
        List.cons_ne_nil, not_false_eq_true, true_and]
      rw [or_iff_left fun (found : (∀ q, ¬ q = mixed → ¬ classify (.key first) = q) ∧ _) =>
        found.1 _ one.1 rfl]
      exact ⟨fun same => ⟨same ▸ one.1, same⟩, And.right⟩
    · have none (q : KeyPattern) (proper : q ≠ mixed) :
          ¬ ∀ name ∈ first :: rest, classify (.key name) = q := by
        intro all
        obtain ⟨rfl, later⟩ := List.forall_mem_cons.mp all
        exact one ⟨proper, later⟩
      have condition : (classify (.key first) != .mixed &&
          (rest.map Segment.key).all fun s => classify s == classify (.key first)) = false := by
        rw [← Bool.not_eq_true]
        simpa using one
      simp only [condition, Bool.false_eq_true, if_false, List.cons_ne_nil, ne_eq,
        not_false_eq_true, true_and]
      rw [or_iff_right fun found => none p found.1 found.2, and_iff_right none]
      split <;> simp [eq_comm]

/-- A key follows the convention that it belongs to. -/
theorem holds_of_classify {name : String} {p : KeyPattern} (proper : p ≠ .mixed)
    (same : classify (.key name) = p) : p.holds name = true := by
  rw [classify, Segment.isWildcard_key] at same
  simp only [Bool.false_eq_true, if_false] at same
  split at same
  · rename_i q found
    subst same
    have follows := List.find?_some found
    exact follows
  · exact absurd same.symm proper

/-- Small letters in two words or more, with an underscore between them. -/
def compound : Regex := .seq (.plus lower) (.plus (.seq (.char '_') (.plus lower)))

/-- A key with an underscore is not of a convention that takes none. -/
theorem holds_eq_false {p : KeyPattern} {name : String} {r : Regex} (expression : p.regex? = some r)
    (plain : r.isPlain = true) (none : r.mayTake '_' = false) (underscore : '_' ∈ name.toList) :
    p.holds name = false := by
  rw [holds, expression, ← Bool.not_eq_true]
  intro follows
  have taken := mayTake_of_takes ((accepts_iff plain).mp follows) underscore
  rw [none] at taken
  cases taken

/-- The keys of the convention with underscores: words alone belong to an earlier one. -/
theorem classify_eq_snakeCase_iff {name : String} :
    classify (.key name) = .snakeCase ↔ compound.accepts name.toList = true := by
  rw [accepts_iff (by rfl)]
  constructor
  · intro same
    have follows := holds_of_classify (by decide) same
    obtain ⟨front, back, text, words, count, -, -, times⟩ :=
      (accepts_iff (by rfl)).mp (show _ = true from follows)
    refine ⟨front, back, text, words, count, Nat.pos_iff_ne_zero.mpr ?_, by simp, times⟩
    -- Without an underscore the key would be a word, which is an earlier convention.
    rintro rfl
    obtain rfl : back = [] := times
    have isWord : word.holds name = true :=
      (accepts_iff (by rfl)).mpr (by simpa [text] using words)
    rw [classify, if_neg (by simp), List.find?_cons_of_pos (by exact isWord)] at same
    cases same
  · rintro ⟨front, back, text, words, count, several, -, times⟩
    have underscore : '_' ∈ name.toList := by
      obtain ⟨count, rfl⟩ := Nat.exists_eq_add_of_le' several
      obtain ⟨_, _, rfl, ⟨_, _, rfl, mark, -⟩, -⟩ := times
      rw [takes_char.mp mark] at text
      simp [text]
    have follows : snakeCase.holds name = true :=
      (accepts_iff (by rfl)).mpr ⟨front, back, text, words, count, Nat.zero_le _, by simp, times⟩
    have notWord : word.holds name = false :=
      holds_eq_false rfl (by rfl) (by rfl) underscore
    have notPascal : pascalCase.holds name = false :=
      holds_eq_false rfl (by rfl) (by rfl) underscore
    have notCamel : camelCase.holds name = false :=
      holds_eq_false rfl (by rfl) (by rfl) underscore
    simp [classify, Segment.text, follows, notWord, notPascal, notCamel]

/-- The names that make a record of their pattern: all in words with underscores between them, or
else of no one convention and with a stem that all share. -/
theorem ofKeys_record_iff {names : List String} (filled : names ≠ []) :
    (∃ p, ofKeys (names.map .key) = some p ∧ (p = .prefixed ∨ p = .snakeCase)) ↔
      (∀ name ∈ names, compound.accepts name.toList = true) ∨
        ((¬ ∃ p ≠ mixed, ∀ name ∈ names, classify (.key name) = p) ∧
          ∃ shared ≠ "", ∀ name ∈ names, stem name = shared) := by
  simp only [← classify_eq_snakeCase_iff, ofKeys_eq_some_iff]
  have apart : (¬ ∃ p ≠ mixed, ∀ name ∈ names, classify (.key name) = p) ↔
      ∀ p ≠ mixed, ¬ ∀ name ∈ names, classify (.key name) = p := by simp
  have shares : (sharedStem names).isSome = true ↔
      ∃ shared ≠ "", ∀ name ∈ names, stem name = shared := by
    simp only [Option.isSome_iff_exists, sharedStem_eq_some_iff, filled, ne_eq, not_false_eq_true,
      true_and]
  rw [apart, ← shares]
  constructor
  · rintro ⟨p, ⟨-, ⟨-, same⟩ | ⟨mixedUp, rfl⟩⟩, isRecord⟩
    · obtain ⟨first, member⟩ := List.exists_mem_of_ne_nil names filled
      -- No key is of the pattern of stems by itself.
      have notPrefixed : p ≠ .prefixed := by
        rintro rfl
        cases holds_of_classify (by decide) (same first member)
      obtain rfl := isRecord.resolve_left notPrefixed
      exact .inl same
    · refine .inr ⟨mixedUp, ?_⟩
      by_contra none
      simp [none] at isRecord
  · rintro (same | ⟨mixedUp, shared⟩)
    · exact ⟨.snakeCase, ⟨filled, .inl ⟨by decide, same⟩⟩, .inr rfl⟩
    · exact ⟨.prefixed, ⟨filled, .inr ⟨mixedUp, (if_pos shared).symm⟩⟩, .inl rfl⟩

/-- Whether a key has a line feed after its first underscore or point. -/
def breaks (key : String) : Bool := (key.toList.dropWhile fun c => !separates c).contains '\n'

/-- Split at the end of a stem, which has no separator in it. -/
theorem span_of_stem {stem after : List Char} (plain : ∀ c ∈ stem, separates c = false)
    (ends : ∀ c ∈ after.head?, separates c = true) :
    ((stem ++ after).takeWhile fun c => !separates c) = stem ∧
      ((stem ++ after).dropWhile fun c => !separates c) = after := by
  have inside : ∀ c ∈ stem, (!separates c) = true := by simpa using plain
  rw [List.takeWhile_append_of_pos inside, List.dropWhile_append_of_pos inside]
  cases after with
  | nil => simp
  | cons c rest => simp [ends c rfl]

theorem separates_of_mem_stem {key : String} {c : Char} (member : c ∈ (stem key).toList) :
    separates c = false := by
  rw [stem, String.toList_ofList] at member
  simpa using List.mem_takeWhile_imp member

/-- The rule of a stem admits the keys with this stem that do not break after it. -/
theorem admits_stemRule_iff_stem {shared key : String}
    (plain : ∀ c ∈ shared.toList, separates c = false) :
    (stemRule shared).admits key = true ↔ stem key = shared ∧ breaks key = false := by
  rw [admits_stemRule_iff]
  constructor
  · rintro ⟨after, text, extended⟩
    have ends : ∀ c ∈ after.head?, separates c = true := by
      rcases extended with rfl | ⟨c, rest, rfl, ends, -⟩ <;> simp [*]
    obtain ⟨front, back⟩ := span_of_stem plain ends
    rw [stem, breaks, text, front, back, String.ofList_toList]
    refine ⟨rfl, ?_⟩
    rcases extended with rfl | ⟨c, rest, rfl, ends, noFeed⟩
    · rfl
    · have apart : c ≠ '\n' := by
        rintro rfl
        cases ends
      simpa [apart.symm] using noFeed
  · rintro ⟨same, whole⟩
    obtain ⟨after, tail⟩ : ∃ after, key.toList.dropWhile (fun c => !separates c) = after := ⟨_, rfl⟩
    have text : key.toList = shared.toList ++ after := by
      rw [← same, ← tail, stem, String.toList_ofList, List.takeWhile_append_dropWhile]
    refine ⟨after, text, ?_⟩
    rw [breaks, tail] at whole
    cases after with
    | nil => exact .inl rfl
    | cons c rest =>
      have ends : separates c = true := by
        have head :=
          List.head_dropWhile_not (fun c => !separates c) (l := key.toList) (by simp [tail])
        simpa [tail] using head
      exact .inr ⟨c, rest, rfl, ends, fun feed => by simp [feed] at whole⟩

/-- The convention of a key is one with an expression, and the rule is that expression's. -/
theorem exists_rule_of_classify {name : String} {p : KeyPattern} (proper : p ≠ .mixed)
    (same : classify (.key name) = p) : p ≠ .prefixed ∧ ∃ text, p.regexText? = some text ∧
      p.rule? none = some ⟨"^" ++ text ++ "$"⟩ := by
  have follows := holds_of_classify proper same
  cases p with
  | word | pascalCase | camelCase | snakeCase => exact ⟨by decide, _, rfl, rfl⟩
  | numeric | prefixed | mixed => cases follows

/-- A stem that is not empty has a rule of its own. -/
theorem rule?_prefixed {shared : String} (filled : shared ≠ "") :
    prefixed.rule? (some shared) = some (stemRule shared) := by
  rw [rule?, if_neg (by simpa using filled)]

/-- Keys that have a pattern are of one convention, or they share a stem. -/
theorem ofKeys_cases {names : List String} {p : KeyPattern}
    (found : ofKeys (names.map .key) = some p) (proper : p ≠ .mixed) :
    (p ≠ .prefixed ∧ ∀ name ∈ names, classify (.key name) = p) ∨
      (p = .prefixed ∧ ∃ own ≠ "", sharedStem names = some own ∧
        ∀ name ∈ names, stem name = own) := by
  obtain ⟨filled, ⟨-, same⟩ | ⟨-, shares⟩⟩ := ofKeys_eq_some_iff.mp found
  · obtain ⟨first, member⟩ := List.exists_mem_of_ne_nil names filled
    exact .inl ⟨(exists_rule_of_classify proper (same first member)).1, same⟩
  · split at shares
    · rename_i some
      obtain ⟨own, one⟩ := Option.isSome_iff_exists.mp some
      obtain ⟨-, filledStem, same⟩ := sharedStem_eq_some_iff.mp one
      exact .inr ⟨shares, own, filledStem, one, same⟩
    · exact absurd shares proper

/-- The pattern that keys have in common gives a rule which admits them, unless they break after the
stem that they share. -/
theorem exists_rule_of_ofKeys {names : List String} {p : KeyPattern}
    (found : ofKeys (names.map .key) = some p) (proper : p ≠ .mixed) :
    ∃ rule, p.rule? (if p = .prefixed then sharedStem names else none) = some rule ∧
      ∀ name ∈ names, rule.admits name = true ↔ (p = .prefixed → breaks name = false) := by
  have filled := (ofKeys_eq_some_iff.mp found).1
  rcases ofKeys_cases found proper with ⟨other, same⟩ | ⟨rfl, own, filledStem, one, same⟩
  · obtain ⟨first, member⟩ := List.exists_mem_of_ne_nil names filled
    obtain ⟨-, text, written, rule⟩ := exists_rule_of_classify proper (same first member)
    rw [if_neg other]
    refine ⟨_, rule, fun name member => iff_of_true ?_ fun isPrefixed => absurd isPrefixed other⟩
    exact (admits_convention_iff written).mpr (holds_of_classify proper (same name member))
  · rw [if_pos rfl, one]
    refine ⟨_, rule?_prefixed filledStem, fun name member => ?_⟩
    have plain : ∀ c ∈ own.toList, separates c = false :=
      fun c inside => separates_of_mem_stem ((same name member).symm ▸ inside)
    rw [admits_stemRule_iff_stem plain, and_iff_right (same name member)]
    exact ⟨fun whole _ => whole, fun whole => whole rfl⟩

/-- The rule of keys that have a pattern admits them, unless they break after the stem that they
share; and the rule of any stem admits what has that stem and does not break. -/
theorem rule_covers_keys (names : List String) (p : KeyPattern) (shared : String) :
    (ofKeys (names.map .key) = some p → p ≠ .mixed →
      ∃ rule, p.rule? (if p = .prefixed then sharedStem names else none) = some rule ∧
        ∀ name ∈ names, rule.admits name = true ↔ (p = .prefixed → breaks name = false)) ∧
    (shared ≠ "" → (∀ c ∈ shared.toList, separates c = false) →
      ∃ rule, prefixed.rule? (some shared) = some rule ∧
        ∀ key, rule.admits key = true ↔ stem key = shared ∧ breaks key = false) :=
  ⟨exists_rule_of_ofKeys, fun filled plain =>
    ⟨stemRule shared, rule?_prefixed filled, fun _ => admits_stemRule_iff_stem plain⟩⟩

/-- Two keys share a stem, and the second breaks after it. -/
theorem rule_of_broken_key :
    (ofKeys (["a_b", "a_c\n"].map .key) = some .prefixed ∧ (.prefixed : KeyPattern) ≠ .mixed ∧
      ∃ rule, prefixed.rule? (sharedStem ["a_b", "a_c\n"]) = some rule ∧
        ∀ name ∈ ["a_b", "a_c\n"], rule.admits name = true ↔ (True → breaks name = false)) ∧
    ("a" ≠ "" ∧ (∀ c ∈ "a".toList, separates c = false) ∧
      ∃ rule, prefixed.rule? (some "a") = some rule ∧
        ∀ key, rule.admits key = true ↔ stem key = "a" ∧ breaks key = false) := by
  have pattern : ofKeys (["a_b", "a_c\n"].map .key) = some .prefixed := by decide +kernel
  have plain : ∀ c ∈ "a".toList, separates c = false := by simp [separates]
  obtain ⟨keys, stems⟩ := rule_covers_keys ["a_b", "a_c\n"] .prefixed "a"
  refine ⟨⟨pattern, by decide, ?_⟩, by decide, plain, stems (by decide) plain⟩
  simpa using keys pattern (by decide)

/-- A key that a stem was read off is not admitted by the stem's rule. -/
theorem own_key_not_admitted :
    ofKeys (["a_b", "a_c\n"].map .key) = some .prefixed ∧
      sharedStem ["a_b", "a_c\n"] = some "a" ∧
      prefixed.rule? (some "a") = some (stemRule "a") ∧
      stem "a_c\n" = "a" ∧ (stemRule "a").admits "a_c\n" = false := by
  decide +kernel

end KeyPattern
end SchemaInference
