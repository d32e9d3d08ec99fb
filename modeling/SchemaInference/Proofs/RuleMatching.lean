import SchemaInference.Proofs.MatchMeaning
import SchemaInference.Proofs.RuleReading

/-! What the rules of records admit. The rule of a stem admits the keys that have the stem, unless a
line feed comes after their first underscore or point, which the rule does not take; and every rule
that a pattern gives can be read. -/
namespace SchemaInference
namespace Regex

theorem holds_one {c d : Char} (basic : c.toNat ≤ 0xFFFF) :
    (SetItem.one c.toNat).holds .exact d = true ↔ d = c := by
  rw [SetItem.holds, if_neg (Nat.not_lt.mpr basic)]
  simp [Folding.family, Char.toNat_inj, eq_comm]

theorem separators_holds {c : Char} :
    Read.separators.holds c = true ↔ KeyPattern.separates c = true := by
  have either : Read.separators.holds c = true ↔
      (SetItem.one '_'.toNat).holds .exact c = true ∨
        (SetItem.one '.'.toNat).holds .exact c = true := by
    rw [CharSet.holds, Read.separators, Bool.bne_false, List.any_cons, List.any_cons, List.any_nil,
      Bool.or_false, Bool.or_eq_true]
  rw [either, holds_one (by decide), holds_one (by decide), KeyPattern.separates, Bool.or_eq_true,
    beq_iff_eq, beq_iff_eq]

theorem line_holds {c : Char} : CharSet.line.holds c = true ↔ c ≠ '\n' := by
  have other : CharSet.line.holds c = !(SetItem.one '\n'.toNat).holds .exact c := by
    rw [CharSet.holds, CharSet.line, Bool.bne_true, List.any_cons, List.any_nil, Bool.or_false]
    rfl
  rw [other, Bool.not_eq_true', ← Bool.not_eq_true, holds_one (by decide)]

/-- What may follow a stem. -/
theorem takes_extension {before taken after : List Char} :
    Read.extension.Takes before taken after ↔ taken = [] ∨
      ∃ c rest, taken = c :: rest ∧ KeyPattern.separates c = true ∧ '\n' ∉ rest := by
  have all {rest : List Char} : (∀ c ∈ rest, CharSet.line.holds c = true) ↔ '\n' ∉ rest := by
    simp only [line_holds]
    exact ⟨fun each member => each _ member rfl, fun none c member same => none (same ▸ member)⟩
  rw [Read.extension, takes_opt, Takes]
  simp only [takes_star_one, all]
  refine or_congr_right ⟨?_, ?_⟩
  · rintro ⟨_, rest, rfl, ⟨c, rfl, ends⟩, noFeed⟩
    exact ⟨c, rest, rfl, separators_holds.mp ends, noFeed⟩
  · rintro ⟨c, rest, rfl, ends, noFeed⟩
    exact ⟨[c], rest, rfl, ⟨c, rfl, separators_holds.mpr ends⟩, noFeed⟩

end Regex

namespace KeyPattern
open Regex

theorem isPlain_stemExpression (stem : List Char) : (stemExpression stem).isPlain = true := by
  refine isPlain_sequence fun r member => ?_
  simp only [List.mem_cons, List.mem_append, List.mem_map, List.not_mem_nil, or_false] at member
  rcases member with rfl | ⟨c, -, rfl⟩ | rfl | rfl <;> rfl

/-- The rule of a stem admits the stem and what begins with it and goes on with a separator, unless
there is a line feed later. -/
theorem admits_stemRule_iff {key stem : String} : (stemRule stem).admits key = true ↔
    ∃ after, key.toList = stem.toList ++ after ∧ (after = [] ∨
      ∃ c rest, after = c :: rest ∧ separates c = true ∧ '\n' ∉ rest) := by
  rw [admits_of_expression (expression_stemRule stem), accepts_iff (isPlain_stemExpression _),
    stemExpression, takes_sequence_cons, Takes]
  simp only [takes_sequence_literal, Takes, takes_extension, Regex.sequence]
  constructor
  · rintro ⟨_, _, text, ⟨rfl, -⟩, left, rfl, after, _, rfl, extended, rfl, -⟩
    exact ⟨after, by simpa using text, extended⟩
  · rintro ⟨after, text, extended⟩
    exact ⟨[], key.toList, rfl, ⟨rfl, rfl⟩, after, text, after, [], by simp, extended, rfl, rfl⟩

/-- A rule that a pattern gives is that of a convention or of a stem. -/
theorem rule?_cases {p : KeyPattern} {stem : Option String} {rule : KeyRule}
    (given : p.rule? stem = some rule) :
    (∃ r text, p.regex? = some r ∧ p.regexText? = some text ∧ rule = ⟨"^" ++ text ++ "$"⟩) ∨
      ∃ own, rule = stemRule own := by
  unfold rule? at given
  split at given
  · split at given
    · contradiction
    · exact .inr ⟨_, (Option.some.inj given).symm⟩
  · obtain ⟨text, written, rfl⟩ := Option.map_eq_some_iff.mp given
    obtain ⟨r, expression⟩ := exists_regex? written
    exact .inl ⟨r, text, expression, written, rfl⟩

/-- Every rule that a pattern gives is read as an expression between anchors. -/
theorem rule?_expression {p : KeyPattern} {stem : Option String} {rule : KeyRule}
    (given : p.rule? stem = some rule) :
    ∃ read r, rule.expression = .ok read ∧ read.run = (whole r).run ∧
      (p.regex? = some r ∨
        ∃ own : List Char, r = .sequence (own.map char ++ [Read.extension])) := by
  rcases rule?_cases given with ⟨r, text, expression, written, rfl⟩ | ⟨own, rfl⟩
  · obtain ⟨read, readable, same⟩ := expression_convention expression written
    exact ⟨read, r, readable, same, .inl expression⟩
  · exact ⟨_, _, expression_stemRule own, run_stemExpression _, .inr ⟨own.toList, rfl⟩⟩

/-- Every rule that a pattern gives can be read. -/
theorem rule?_wellFormed {p : KeyPattern} {stem : Option String} {rule : KeyRule}
    (given : p.rule? stem = some rule) : rule.WellFormed := by
  obtain ⟨read, -, readable, -⟩ := rule?_expression given
  exact wellFormed_of_expression readable

end KeyPattern

end SchemaInference
