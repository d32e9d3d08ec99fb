import SchemaInference.Regex.Match

/-! What a match means. An expression takes pieces of text, each between the characters that stand
before and after it, and trial finds exactly those: a run succeeds if and only if the expression
takes some piece after which the rest of the match succeeds. This is so without groups and looks,
and where repetitions take much; the expressions of key rules are of this kind. -/
namespace SchemaInference

/-- The place after a piece of the text, with this rest left. -/
def Place.past (p : Place) (taken rest : List Char) : Place :=
  { p with before := taken.reverse ++ p.before, after := rest }

@[simp] theorem Place.before_past (p : Place) (taken rest : List Char) :
    (p.past taken rest).before = taken.reverse ++ p.before := rfl

@[simp] theorem Place.after_past (p : Place) (taken rest : List Char) :
    (p.past taken rest).after = rest := rfl

@[simp] theorem Place.past_past (p : Place) (taken rest taken' rest' : List Char) :
    (p.past taken rest).past taken' rest' = p.past (taken ++ taken') rest' := by simp [past]

@[simp] theorem Place.past_nil (p : Place) : p.past [] p.after = p := rfl

namespace Regex

/-- Pieces of text that may be taken: what stands before a piece, from the last character to the
first, the piece, and what stands after it. -/
abbrev Pieces := List Char → List Char → List Char → Prop

/-- So many pieces, one after another. -/
def Times (pieces : Pieces) : (count : Nat) → Pieces
  | 0, _, taken, _ => taken = []
  | count + 1, before, taken, after => ∃ first others, taken = first ++ others ∧
      pieces before first (others ++ after) ∧
      Times pieces count (first.reverse ++ before) others after

/-- The pieces that an expression takes. Groups and looks are left out. -/
def Takes : Regex → Pieces
  | .blank, _, taken, _ => taken = []
  | .one set, _, taken, _ => ∃ c, taken = [c] ∧ set.holds c = true
  | .anchor a, before, taken, after => taken = [] ∧ a.holds before after = true
  | .seq r s, before, taken, after => ∃ first second, taken = first ++ second ∧
      r.Takes before first (second ++ after) ∧ s.Takes (first.reverse ++ before) second after
  | .alt r s, before, taken, after => r.Takes before taken after ∨ s.Takes before taken after
  | .repeated _ least most r, before, taken, after => ∃ count, least ≤ count ∧
      (∀ bound, most = some bound → count ≤ bound) ∧ Times r.Takes count before taken after
  | _, _, _, _ => False

/-- Whether an expression has no groups and no looks, and all its repetitions take much. -/
def isPlain : Regex → Bool
  | .blank | .one _ | .anchor _ => true
  | .seq r s | .alt r s => r.isPlain && s.isPlain
  | .repeated .most least most r => most.all (least ≤ ·) && r.isPlain
  | _ => false

/-- A run finds pieces: it succeeds exactly if the rest of the match succeeds after one of them. -/
def Finds (run : Continuation → Continuation) (pieces : Pieces) : Prop :=
  ∀ next p, (run next p).isSome = true ↔ ∃ taken rest, p.after = taken ++ rest ∧
    pieces p.before taken rest ∧ (next (p.past taken rest)).isSome = true

section Repetition
variable {body : Continuation → Continuation} {pieces : Pieces} {next : Continuation} {p : Place}
  {tries count : Nat} {room last : Option Nat} {taken rest : List Char}

theorem Finds.exactly (finds : Finds body pieces) (count : Nat) :
    Finds (fun next => Repetition.exactly body next count) (Times pieces count) := by
  intro next p
  induction count generalizing p with
  | zero =>
    constructor
    · intro succeeds
      exact ⟨[], p.after, rfl, rfl, succeeds⟩
    · rintro ⟨_, rest, here, rfl, succeeds⟩
      obtain rfl : p.after = rest := here
      exact succeeds
  | succ count ih =>
    show (body (fun q => Repetition.exactly body next count q) p).isSome = true ↔ _
    rw [finds]
    constructor
    · rintro ⟨first, left, here, takes, succeeds⟩
      obtain ⟨others, rest, there, more, succeeds⟩ := (ih (p := p.past first left)).mp succeeds
      obtain rfl : left = others ++ rest := there
      rw [Place.past_past] at succeeds
      exact ⟨first ++ others, rest, by simpa using here, ⟨first, others, rfl, takes, more⟩,
        succeeds⟩
    · rintro ⟨_, rest, here, ⟨first, others, rfl, takes, more⟩, succeeds⟩
      refine ⟨first, others ++ rest, by simpa using here, takes, ?_⟩
      exact (ih (p := p.past first (others ++ rest))).mpr
        ⟨others, rest, rfl, more, by simpa using succeeds⟩

theorem most_isSome_of_next (succeeds : (next p).isSome = true) :
    (Repetition.most body next tries room last p).isSome = true := by
  cases tries with
  | zero => exact succeeds
  | succ tries =>
    unfold Repetition.most
    split
    · split
      · rfl
      · exact succeeds
    · exact succeeds

/-- One more round succeeds if what it leads to does. -/
theorem most_isSome_of_round (mayGoOn : Repetition.mayGoOn room last p = true)
    (succeeds : (body (Repetition.most body next tries (room.map (· - 1)) (some p.after.length))
      p).isSome = true) :
    (Repetition.most body next (tries + 1) room last p).isSome = true := by
  obtain ⟨q, found⟩ := Option.isSome_iff_exists.mp succeeds
  rw [Repetition.most, if_pos mayGoOn, found]
  rfl

/-- What a repetition finds are pieces, as many as there is room for. -/
theorem Finds.times_of_most (finds : Finds body pieces)
    (found : (Repetition.most body next tries room last p).isSome = true) :
    ∃ count taken rest, (∀ bound, room = some bound → count ≤ bound) ∧ p.after = taken ++ rest ∧
      Times pieces count p.before taken rest ∧ (next (p.past taken rest)).isSome = true := by
  have none (succeeds : (next p).isSome = true) : ∃ count taken rest,
      (∀ bound, room = some bound → count ≤ bound) ∧ p.after = taken ++ rest ∧
        Times pieces count p.before taken rest ∧ (next (p.past taken rest)).isSome = true :=
    ⟨0, [], p.after, fun _ _ => Nat.zero_le _, rfl, rfl, succeeds⟩
  induction tries generalizing p room last with
  | zero => exact none found
  | succ tries ih =>
    unfold Repetition.most at found
    split at found
    · rename_i mayGoOn
      split at found
      · rename_i q round
        obtain ⟨first, left, here, takes, succeeds⟩ :=
          (finds _ p).mp (Option.isSome_iff_exists.mpr ⟨q, round⟩)
        obtain ⟨count, others, rest, bounded, there, more, succeeds⟩ :=
          ih succeeds fun succeeds => ⟨0, [], left, fun _ _ => Nat.zero_le _, rfl, rfl, succeeds⟩
        obtain rfl : left = others ++ rest := there
        rw [Place.past_past] at succeeds
        refine ⟨count + 1, first ++ others, rest, ?_, by simpa using here,
          ⟨first, others, rfl, takes, more⟩, succeeds⟩
        rintro bound rfl
        have room := bounded (bound - 1) rfl
        have filled : bound ≠ 0 := by
          rintro rfl
          simp [Repetition.mayGoOn] at mayGoOn
        omega
      · exact none found
    · exact none found

/-- Pieces that there is room for are found. A round that would take nothing is left out. -/
theorem Finds.most_of_times (finds : Finds body pieces)
    (bounded : ∀ bound, room = some bound → count ≤ bound) (here : p.after = taken ++ rest)
    (times : Times pieces count p.before taken rest)
    (succeeds : (next (p.past taken rest)).isSome = true) (enough : p.after.length < tries)
    (fresh : last ≠ some p.after.length) :
    (Repetition.most body next tries room last p).isSome = true := by
  induction count generalizing p room last tries taken with
  | zero =>
    obtain rfl : taken = [] := times
    obtain rfl : p.after = rest := here
    exact most_isSome_of_next succeeds
  | succ count ih =>
    obtain ⟨first, others, rfl, takes, more⟩ := times
    by_cases empty : first = []
    · subst empty
      exact ih (fun bound isRoom => Nat.le_of_succ_le (bounded bound isRoom)) here more succeeds
        enough fresh
    · obtain ⟨tries, rfl⟩ : ∃ n, tries = n + 1 := ⟨tries - 1, by omega⟩
      have mayGoOn : Repetition.mayGoOn room last p = true := by
        have hasRoom : room ≠ some 0 := by
          rintro rfl
          exact absurd (bounded 0 rfl) (by omega)
        simp [Repetition.mayGoOn, hasRoom, fresh]
      have here : p.after = first ++ (others ++ rest) := by simpa using here
      have shorter : (others ++ rest).length < p.after.length := by
        have filled := List.length_pos_iff.mpr empty
        simp only [here, List.length_append]
        omega
      refine most_isSome_of_round mayGoOn ((finds _ p).mpr ⟨first, others ++ rest, here, takes, ?_⟩)
      refine ih ?_ rfl more (by simpa using succeeds) (Nat.lt_of_lt_of_le shorter (by omega)) ?_
      · intro bound isRoom
        obtain ⟨least, rfl, rfl⟩ := Option.map_eq_some_iff.mp isRoom
        have := bounded least rfl
        omega
      · intro same
        rw [Option.some.injEq, Place.after_past] at same
        omega

theorem times_add {before after : List Char} (first second : Nat) :
    Times pieces (first + second) before taken after ↔ ∃ front back, taken = front ++ back ∧
      Times pieces first before front (back ++ after) ∧
      Times pieces second (front.reverse ++ before) back after := by
  induction first generalizing before taken with
  | zero =>
    rw [Nat.zero_add]
    constructor
    · exact fun times => ⟨[], taken, rfl, rfl, times⟩
    · rintro ⟨_, back, rfl, rfl, times⟩
      exact times
  | succ first ih =>
    rw [Nat.succ_add]
    constructor
    · rintro ⟨piece, others, rfl, takes, more⟩
      obtain ⟨front, back, rfl, fewer, last⟩ := ih.mp more
      exact ⟨piece ++ front, back, by simp, ⟨piece, front, rfl, by simpa using takes, fewer⟩,
        by simpa using last⟩
    · rintro ⟨_, back, rfl, ⟨piece, front, rfl, takes, fewer⟩, last⟩
      exact ⟨piece, front ++ back, by simp, by simpa using takes,
        ih.mpr ⟨front, back, rfl, fewer, by simpa using last⟩⟩

end Repetition

/-! ## What runs find -/

section Run
variable {r s : Regex}

theorem finds_blank : Finds Regex.blank.run Regex.blank.Takes := by
  intro next p
  constructor
  · exact fun succeeds => ⟨[], p.after, rfl, rfl, succeeds⟩
  · rintro ⟨_, rest, here, rfl, succeeds⟩
    obtain rfl : p.after = rest := here
    exact succeeds

theorem finds_one (set : CharSet) : Finds (Regex.one set).run (Regex.one set).Takes := by
  intro next p
  obtain ⟨before, after, starts, ends⟩ := p
  cases after with
  | nil =>
    refine iff_of_false Bool.false_ne_true ?_
    rintro ⟨_, rest, here, ⟨c, rfl, -⟩, -⟩
    cases here
  | cons c after =>
    show (if set.holds c then next ⟨c :: before, after, starts, ends⟩ else none).isSome = true ↔ _
    constructor
    · intro succeeds
      split at succeeds
      · rename_i holds
        exact ⟨[c], after, rfl, ⟨c, rfl, holds⟩, succeeds⟩
      · cases succeeds
    · rintro ⟨_, rest, here, ⟨d, rfl, holds⟩, succeeds⟩
      cases here
      rw [if_pos holds]
      exact succeeds

theorem finds_anchor (a : Anchor) : Finds (Regex.anchor a).run (Regex.anchor a).Takes := by
  intro next p
  show (if a.holds p.before p.after then next p else none).isSome = true ↔ _
  constructor
  · intro succeeds
    split at succeeds
    · rename_i holds
      exact ⟨[], p.after, rfl, ⟨rfl, holds⟩, succeeds⟩
    · cases succeeds
  · rintro ⟨_, rest, here, ⟨rfl, holds⟩, succeeds⟩
    obtain rfl : p.after = rest := here
    rw [if_pos holds]
    exact succeeds

theorem Finds.seq (first : Finds r.run r.Takes) (second : Finds s.run s.Takes) :
    Finds (Regex.seq r s).run (Regex.seq r s).Takes := by
  intro next p
  show (r.run (fun q => s.run next q) p).isSome = true ↔ _
  rw [first]
  constructor
  · rintro ⟨front, left, here, takes, succeeds⟩
    obtain ⟨back, rest, there, more, succeeds⟩ := (second _ _).mp succeeds
    obtain rfl : left = back ++ rest := there
    rw [Place.past_past] at succeeds
    exact ⟨front ++ back, rest, by simpa using here, ⟨front, back, rfl, takes, more⟩, succeeds⟩
  · rintro ⟨_, rest, here, ⟨front, back, rfl, takes, more⟩, succeeds⟩
    refine ⟨front, back ++ rest, by simpa using here, takes, ?_⟩
    exact (second _ _).mpr ⟨back, rest, rfl, more, by simpa using succeeds⟩

theorem Finds.alt (left : Finds r.run r.Takes) (right : Finds s.run s.Takes) :
    Finds (Regex.alt r s).run (Regex.alt r s).Takes := by
  intro next p
  have either : ((Regex.alt r s).run next p).isSome = true ↔
      (r.run next p).isSome = true ∨ (s.run next p).isSome = true := by
    simp only [run]
    cases r.run next p <;> simp
  rw [either, left, right]
  simp only [Takes, or_and_right, and_or_left, exists_or]

/-- As many pieces as there must be are taken first, then as many more as there is room for. -/
theorem Finds.repeated {least : Nat} {most : Option Nat} (finds : Finds r.run r.Takes)
    (ordered : ∀ bound, most = some bound → least ≤ bound) :
    Finds (Regex.repeated .most least most r).run (Regex.repeated .most least most r).Takes := by
  intro next p
  show (Repetition.exactly r.run (fun q => Repetition.most r.run next (q.after.length + 1)
    (most.map (· - least)) none q) least p).isSome = true ↔ _
  rw [finds.exactly least]
  constructor
  · rintro ⟨front, left, here, fewest, found⟩
    obtain ⟨extra, back, rest, bounded, there, more, succeeds⟩ := finds.times_of_most found
    obtain rfl : left = back ++ rest := there
    rw [Place.past_past] at succeeds
    refine ⟨front ++ back, rest, by simpa using here, ⟨least + extra, Nat.le_add_right _ _, ?_,
      (times_add least extra).mpr ⟨front, back, rfl, fewest, more⟩⟩, succeeds⟩
    rintro bound rfl
    have room : extra ≤ bound - least := bounded _ rfl
    have several := ordered bound rfl
    omega
  · rintro ⟨taken, rest, here, ⟨count, several, bounded, times⟩, succeeds⟩
    obtain ⟨extra, rfl⟩ := Nat.exists_eq_add_of_le several
    obtain ⟨front, back, rfl, fewest, more⟩ := (times_add least extra).mp times
    refine ⟨front, back ++ rest, by simpa using here, fewest, ?_⟩
    refine finds.most_of_times ?_ rfl more (by simpa using succeeds) (Nat.lt_succ_self _)
      (by simp)
    intro bound isRoom
    obtain ⟨greatest, rfl, rfl⟩ := Option.map_eq_some_iff.mp isRoom
    have := bounded greatest rfl
    omega

/-- The runs of a plain expression find what it takes. -/
theorem finds_run (plain : r.isPlain = true) : Finds r.run r.Takes := by
  induction r with
  | blank => exact finds_blank
  | one set => exact finds_one set
  | anchor a => exact finds_anchor a
  | seq r s ihr ihs =>
    obtain ⟨first, second⟩ := Bool.and_eq_true_iff.mp plain
    exact (ihr first).seq (ihs second)
  | alt r s ihr ihs =>
    obtain ⟨left, right⟩ := Bool.and_eq_true_iff.mp plain
    exact (ihr left).alt (ihs right)
  | repeated greed least most r ih =>
    cases greed with
    | most =>
      obtain ⟨ordered, below⟩ := Bool.and_eq_true_iff.mp plain
      exact (ih below).repeated fun bound isBound => by simpa [isBound] using ordered
    | fewest | keeping => cases plain
  | group | again | whether | ahead | behind | keeping => cases plain

end Run

/-- A plain expression accepts the texts that it takes as a whole. -/
theorem accepts_iff {r : Regex} (plain : r.isPlain = true) {cs : List Char} :
    r.accepts cs = true ↔ r.Takes [] cs [] := by
  rw [accepts, finds_run plain]
  constructor
  · rintro ⟨taken, rest, here, takes, ends⟩
    obtain rfl : rest = [] := by
      cases rest with
      | nil => rfl
      | cons c rest => simp at ends
    obtain rfl : cs = taken := by simpa [Place.start] using here
    exact takes
  · exact fun takes => ⟨cs, [], by simp [Place.start], takes, rfl⟩

/-! ## Forms of expressions -/

section Forms
variable {r : Regex} {rest : List Regex} {set : CharSet} {before taken after : List Char}

theorem takes_char {c : Char} : (char c).Takes before taken after ↔ taken = [c] := by
  simp [char, Takes]

theorem takes_opt : (opt r).Takes before taken after ↔ taken = [] ∨ r.Takes before taken after := by
  constructor
  · rintro ⟨count, -, bounded, times⟩
    obtain rfl | rfl : count = 0 ∨ count = 1 := by
      have := bounded 1 rfl
      omega
    · exact .inl times
    · obtain ⟨first, _, rfl, takes, rfl⟩ := times
      exact .inr (by simpa using takes)
  · rintro (rfl | takes)
    · exact ⟨0, Nat.le_refl _, fun _ _ => Nat.zero_le _, rfl⟩
    · refine ⟨1, Nat.zero_le _, by simp, taken, [], by simp, by simpa using takes, rfl⟩

theorem times_one {count : Nat} : Times (Regex.one set).Takes count before taken after ↔
    taken.length = count ∧ ∀ c ∈ taken, set.holds c = true := by
  induction count generalizing before taken with
  | zero =>
    rw [List.length_eq_zero_iff, Times]
    exact ⟨fun none => ⟨none, by simp [none]⟩, And.left⟩
  | succ count ih =>
    constructor
    · rintro ⟨_, others, rfl, ⟨c, rfl, holds⟩, more⟩
      obtain ⟨length, all⟩ := ih.mp more
      exact ⟨by simp [length], List.forall_mem_cons.mpr ⟨holds, all⟩⟩
    · rintro ⟨length, all⟩
      obtain ⟨c, others, rfl⟩ := List.exists_cons_of_length_eq_add_one length
      obtain ⟨holds, later⟩ := List.forall_mem_cons.mp all
      exact ⟨[c], others, rfl, ⟨c, rfl, holds⟩, ih.mpr ⟨by simpa using length, later⟩⟩

theorem takes_star_one :
    (star (.one set)).Takes before taken after ↔ ∀ c ∈ taken, set.holds c = true := by
  constructor
  · rintro ⟨_, -, -, times⟩
    exact (times_one.mp times).2
  · exact fun all => ⟨taken.length, Nat.zero_le _, by simp, times_one.mpr ⟨rfl, all⟩⟩

theorem takes_sequence_cons : (sequence (r :: rest)).Takes before taken after ↔
    (Regex.seq r (sequence rest)).Takes before taken after := by
  cases rest with
  | nil =>
    constructor
    · intro takes
      have takes : r.Takes before taken after := takes
      exact ⟨taken, [], by simp, by simpa using takes, rfl⟩
    · rintro ⟨first, _, rfl, takes, rfl⟩
      simpa [sequence] using takes
  | cons => rfl

theorem isPlain_sequence {rs : List Regex} (plain : ∀ r ∈ rs, r.isPlain = true) :
    (sequence rs).isPlain = true := by
  induction rs with
  | nil => rfl
  | cons r rest ih =>
    obtain ⟨first, later⟩ := List.forall_mem_cons.mp plain
    cases rest with
    | nil => exact first
    | cons => exact Bool.and_eq_true_iff.mpr ⟨first, ih later⟩

/-- The characters of a text take that text. -/
theorem takes_sequence_literal {text : List Char} :
    (sequence (text.map char ++ rest)).Takes before taken after ↔
      ∃ left, taken = text ++ left ∧
        (sequence rest).Takes (text.reverse ++ before) left after := by
  induction text generalizing before taken with
  | nil => simp
  | cons c text ih =>
    rw [List.map_cons, List.cons_append, takes_sequence_cons, Takes]
    simp only [takes_char, ih]
    constructor
    · rintro ⟨_, _, rfl, rfl, left, rfl, takes⟩
      exact ⟨left, rfl, by simpa using takes⟩
    · rintro ⟨left, rfl, takes⟩
      exact ⟨[c], text ++ left, rfl, rfl, left, rfl, by simpa using takes⟩

end Forms

/-- Whether a character is in a set that an expression takes characters of. -/
def mayTake (c : Char) : Regex → Bool
  | .one set => set.holds c
  | .seq r s | .alt r s => r.mayTake c || s.mayTake c
  | .repeated _ _ _ r => r.mayTake c
  | _ => false

/-- What an expression takes is made of characters in its sets. -/
theorem mayTake_of_takes {r : Regex} {before taken after : List Char} {c : Char}
    (takes : r.Takes before taken after) (member : c ∈ taken) : r.mayTake c = true := by
  induction r generalizing before taken after with
  | blank =>
    obtain rfl : taken = [] := takes
    cases member
  | one set =>
    obtain ⟨d, rfl, holds⟩ := takes
    obtain rfl := List.mem_singleton.mp member
    exact holds
  | anchor a =>
    obtain ⟨rfl, -⟩ := takes
    cases member
  | seq r s ihr ihs =>
    obtain ⟨first, second, rfl, front, back⟩ := takes
    refine Bool.or_eq_true_iff.mpr ?_
    exact (List.mem_append.mp member).imp (ihr front) (ihs back)
  | alt r s ihr ihs =>
    exact Bool.or_eq_true_iff.mpr (takes.imp (ihr · member) (ihs · member))
  | repeated greed least most r ih =>
    obtain ⟨count, -, -, times⟩ := takes
    induction count generalizing before taken with
    | zero =>
      obtain rfl : taken = [] := times
      cases member
    | succ count fewer =>
      obtain ⟨first, others, rfl, takes, more⟩ := times
      rcases List.mem_append.mp member with front | back
      · exact ih takes front
      · exact fewer back more
  | group | again | whether | ahead | behind | keeping => cases takes

end Regex
end SchemaInference
