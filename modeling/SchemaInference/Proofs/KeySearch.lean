import SchemaInference.Proofs.RuleMatching

/-! Rules as they are searched for. A check asks a rule to match a key as a whole, while a reader of
the exported schema searches the key for the rule's text, whose last anchor also holds before a line
feed that ends the key. So the two differ on the keys that a rule admits with one line feed after
them, and on no others. -/
namespace SchemaInference
namespace Regex

/-- A plain expression is found in the texts with a piece that it takes where it stands. -/
theorem foundFrom_iff {r : Regex} {pieces : Pieces} (finds : Finds r.run pieces)
    {before cs : List Char} : r.foundFrom before cs = true ↔
      ∃ front taken back, cs = front ++ (taken ++ back) ∧
        pieces (front.reverse ++ before) taken back := by
  have here (before cs : List Char) : (r.run some ⟨before, cs, [], []⟩).isSome = true ↔
      ∃ taken back, cs = taken ++ back ∧ pieces before taken back := by
    simp [finds some ⟨before, cs, [], []⟩]
  induction cs generalizing before with
  | nil =>
    rw [foundFrom, here]
    constructor
    · rintro ⟨taken, back, text, takes⟩
      exact ⟨[], taken, back, text, takes⟩
    · rintro ⟨front, taken, back, text, takes⟩
      obtain ⟨rfl, rest⟩ := List.append_eq_nil_iff.mp text.symm
      exact ⟨taken, back, rest.symm, takes⟩
  | cons c cs ih =>
    rw [foundFrom, Bool.or_eq_true, here]
    refine (or_congr_right ih).trans ⟨?_, ?_⟩
    · rintro (⟨taken, back, text, takes⟩ | ⟨front, taken, back, rfl, takes⟩)
      · exact ⟨[], taken, back, text, takes⟩
      · exact ⟨c :: front, taken, back, rfl, by simpa using takes⟩
    · rintro ⟨front, taken, back, text, takes⟩
      cases front with
      | nil => exact .inl ⟨taken, back, text, takes⟩
      | cons d front =>
        obtain ⟨rfl, rest⟩ := List.cons.inj text
        exact .inr ⟨front, taken, back, rest, by simpa using takes⟩

/-- Whether an expression has no anchors, so that it does not matter what stands around a piece. -/
def isLoose : Regex → Bool
  | .blank | .one _ => true
  | .seq r s | .alt r s => r.isLoose && s.isLoose
  | .repeated _ _ _ r => r.isLoose
  | _ => false

/-- An expression without anchors takes a piece wherever it stands. -/
theorem takes_anywhere {r : Regex} {before taken after : List Char} (before' after' : List Char)
    (loose : r.isLoose = true) (takes : r.Takes before taken after) :
    r.Takes before' taken after' := by
  induction r generalizing before taken after before' after' with
  | blank | one set => exact takes
  | seq r s ihr ihs =>
    obtain ⟨first, second⟩ := Bool.and_eq_true_iff.mp loose
    obtain ⟨front, back, rfl, takes, more⟩ := takes
    exact ⟨front, back, rfl, ihr _ _ first takes, ihs _ _ second more⟩
  | alt r s ihr ihs =>
    obtain ⟨left, right⟩ := Bool.and_eq_true_iff.mp loose
    exact takes.imp (ihr _ _ left) (ihs _ _ right)
  | repeated greed least most r ih =>
    obtain ⟨count, several, bounded, times⟩ := takes
    refine ⟨count, several, bounded, ?_⟩
    clear several bounded
    induction count generalizing before taken before' with
    | zero => exact times
    | succ count fewer =>
      obtain ⟨first, others, rfl, takes, more⟩ := times
      exact ⟨first, others, rfl, ih _ _ loose takes, fewer _ more⟩
  | anchor | group | again | whether | ahead | behind | keeping => cases loose

theorem isLoose_sequence {rs : List Regex} (loose : ∀ r ∈ rs, r.isLoose = true) :
    (sequence rs).isLoose = true := by
  induction rs with
  | nil => rfl
  | cons r rest ih =>
    obtain ⟨first, later⟩ := List.forall_mem_cons.mp loose
    cases rest with
    | nil => exact first
    | cons => exact Bool.and_eq_true_iff.mpr ⟨first, ih later⟩

/-- Between anchors, an expression takes what begins the text and ends it, up to one line feed. -/
theorem takes_whole {r : Regex} {before taken after : List Char} :
    (whole r).Takes before taken after ↔
      before = [] ∧ (after = [] ∨ after = ['\n']) ∧ r.Takes before taken after := by
  have starts (after : List Char) : Anchor.textStart.holds before after = true ↔ before = [] := by
    simp [Anchor.holds]
  have ends (before : List Char) :
      Anchor.textEnd.holds before after = true ↔ after = [] ∨ after = ['\n'] := by
    simp [Anchor.holds]
  constructor
  · rintro ⟨_, _, rfl, ⟨rfl, first⟩, piece, _, rfl, takes, rfl, last⟩
    exact ⟨(starts _).mp first, (ends _).mp last, by simpa using takes⟩
  · rintro ⟨first, last, takes⟩
    exact ⟨[], taken, rfl, ⟨rfl, (starts _).mpr first⟩, taken, [], by simp, takes, rfl,
      (ends _).mpr last⟩

/-- What is run like an expression between anchors is found in the texts that the expression
accepts, and in those with one line feed after them. -/
theorem found_iff_accepts {read r : Regex} (same : read.run = (whole r).run)
    (plain : r.isPlain = true) (loose : r.isLoose = true) {cs : List Char} :
    read.found cs = true ↔
      r.accepts cs = true ∨ ∃ front, cs = front ++ ['\n'] ∧ r.accepts front = true := by
  have finds : Finds read.run (whole r).Takes := by
    rw [same]
    exact finds_run (by simpa [whole, isPlain] using plain)
  rw [found, foundFrom_iff finds]
  simp only [takes_whole, accepts_iff plain]
  constructor
  · rintro ⟨front, taken, back, rfl, first, rfl | rfl, takes⟩
    · obtain rfl : front = [] := by simpa using first
      exact .inl (by simpa using takes)
    · obtain rfl : front = [] := by simpa using first
      exact .inr ⟨taken, rfl, takes_anywhere _ _ loose takes⟩
  · rintro (takes | ⟨front, rfl, takes⟩)
    · exact ⟨[], cs, [], by simp, rfl, .inl rfl, takes⟩
    · exact ⟨[], front, ['\n'], rfl, rfl, .inr rfl, takes_anywhere _ _ loose takes⟩

end Regex

namespace KeyPattern
open Regex

/-- A rule that a pattern gives does not admit a key both with a line feed at its end and without
it. -/
theorem not_admits_line {p : KeyPattern} {stem : Option String} {rule : KeyRule}
    (given : p.rule? stem = some rule) {front : String} (admitted : rule.admits front = true) :
    rule.admits (front ++ "\n") = false := by
  rw [← Bool.not_eq_true]
  intro both
  rcases rule?_cases given with ⟨r, text, expression, written, rfl⟩ | ⟨own, rfl⟩
  · -- No convention takes a line feed.
    have none : r.isPlain = true ∧ r.mayTake '\n' = false := by
      cases p <;> cases expression <;> exact ⟨rfl, rfl⟩
    have follows := (admits_convention_iff written).mp both
    rw [holds, expression] at follows
    have taken := mayTake_of_takes ((accepts_iff none.1).mp follows) (c := '\n') (by simp)
    rw [none.2] at taken
    cases taken
  · -- A stem may have line feeds, but after it there is none.
    obtain ⟨after, text, -⟩ := admits_stemRule_iff.mp admitted
    obtain ⟨after', text', extended⟩ := admits_stemRule_iff.mp both
    obtain rfl : after ++ ['\n'] = after' := by
      rw [String.toList_append, text, List.append_assoc] at text'
      exact List.append_cancel_left text'
    rcases extended with none | ⟨c, rest, more, ends, noFeed⟩
    · simp at none
    · cases after with
      | nil =>
        obtain ⟨rfl, -⟩ := List.cons.inj more
        cases ends
      | cons d after =>
        obtain ⟨-, rfl⟩ := List.cons.inj more
        exact noFeed (by simp)

/-- A rule that a pattern gives is found in every key that it admits. It is found in others exactly
if they are such a key with one line feed after it. -/
theorem found_ne_admits_iff {p : KeyPattern} {stem : Option String} {rule : KeyRule}
    (given : p.rule? stem = some rule) (key : String) :
    (rule.admits key = true → rule.found key = true) ∧
      (rule.found key ≠ rule.admits key ↔
        ∃ front, key = front ++ "\n" ∧ rule.admits front = true) := by
  obtain ⟨read, r, readable, same, shape⟩ := rule?_expression given
  have sound : r.isPlain = true ∧ r.isLoose = true := by
    rcases shape with expression | ⟨own, rfl⟩
    · cases p <;> cases expression <;> exact ⟨rfl, rfl⟩
    · constructor
      · refine isPlain_sequence fun r member => ?_
        simp only [List.mem_append, List.mem_map, List.mem_singleton] at member
        rcases member with ⟨c, -, rfl⟩ | rfl <;> rfl
      · refine isLoose_sequence fun r member => ?_
        simp only [List.mem_append, List.mem_map, List.mem_singleton] at member
        rcases member with ⟨c, -, rfl⟩ | rfl <;> rfl
  have admits (key : String) : rule.admits key = r.accepts key.toList := by
    rw [admits_of_expression readable, accepts, same, ← accepts, accepts_whole]
  have found : rule.found key = true ↔
      rule.admits key = true ∨ ∃ front, key = front ++ "\n" ∧ rule.admits front = true := by
    rw [found_of_expression readable]
    simp only [admits, found_iff_accepts same sound.1 sound.2]
    refine or_congr_right ⟨?_, ?_⟩
    · rintro ⟨front, text, accepts⟩
      refine ⟨String.ofList front, ?_, by simpa using accepts⟩
      rw [← String.toList_inj, text]
      simp
    · rintro ⟨front, rfl, accepts⟩
      exact ⟨front.toList, by simp, accepts⟩
  refine ⟨fun admitted => found.mpr (.inl admitted), ?_⟩
  rw [ne_eq, Bool.eq_iff_iff, found, or_iff_left_iff_imp, Classical.not_imp]
  constructor
  · exact And.left
  · rintro ⟨front, rfl, admitted⟩
    refine ⟨⟨front, rfl, admitted⟩, ?_⟩
    simp [not_admits_line given admitted]

/-- A stem with a line feed of its own, and a key that has one more. -/
theorem stem_with_line_found :
    prefixed.rule? (some "a\n") = some (stemRule "a\n") ∧
      ((stemRule "a\n").admits "a\n_b\n" = true → (stemRule "a\n").found "a\n_b\n" = true) ∧
      ((stemRule "a\n").found "a\n_b\n" ≠ (stemRule "a\n").admits "a\n_b\n" ↔
        ∃ front, "a\n_b\n" = front ++ "\n" ∧ (stemRule "a\n").admits front = true) := by
  have given : prefixed.rule? (some "a\n") = some (stemRule "a\n") := by decide
  exact ⟨given, found_ne_admits_iff given "a\n_b\n"⟩

/-- The rule of words is found in a word before a line feed, and does not admit it. -/
theorem word_before_line_found :
    word.rule? none = some ⟨"^[a-z]+$"⟩ ∧
      (KeyRule.mk "^[a-z]+$").found "ab\n" = true ∧
      (KeyRule.mk "^[a-z]+$").admits "ab\n" = false := by
  decide +kernel

end KeyPattern
end SchemaInference
