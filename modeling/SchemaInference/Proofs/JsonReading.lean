import SchemaInference.Proofs.JsonTokens

/-! What reading JSON takes of a text. The reader passes no control characters but blanks, and it
settles on a value by the characters that it takes: a text that goes on with a character beyond
ASCII gives the same value, with that much more left. So what is JSON as a whole is none before such
a character. -/
namespace SchemaInference.Json

/-! ## Readers -/

/-- A cursor in a text that goes on with `tail`. -/
def Cursor.goingOn (c : Cursor) (tail : List Char) : Cursor := ⟨c.position, c.rest ++ tail⟩

@[simp] theorem Cursor.rest_goingOn (c : Cursor) (tail : List Char) :
    (c.goingOn tail).rest = c.rest ++ tail := rfl

@[simp] theorem Cursor.position_goingOn (c : Cursor) (tail : List Char) :
    (c.goingOn tail).position = c.position := rfl

/-- A result that is settled by the characters that were taken, all of which may stand in JSON:
`longer` is the result in the text that goes on with `tail`. Where the syntax is at fault, more text
may make it right. -/
def Settled {α : Type} (tail : List Char) (c : Cursor) (result longer : Except Fault (α × Cursor)) :
    Prop :=
  match result with
  | .ok (a, next) => Passes c.rest next.rest ∧ longer = .ok (a, next.goingOn tail)
  | .error (.malformed ..) => True
  | .error fault => longer = .error fault

theorem Settled.after {α : Type} {tail : List Char} {c next : Cursor}
    {result longer : Except Fault (α × Cursor)} (passes : Passes c.rest next.rest)
    (settled : Settled tail next result longer) : Settled tail c result longer := by
  match result, settled with
  | .ok (a, last), ⟨later, same⟩ => exact ⟨passes.trans later, same⟩
  | .error (.malformed ..), _ => trivial
  | .error (.tooManyDigits _), same | .error (.tooNested _), same => exact same

/-- What goes on from a settled result is settled if it is so from where that result leaves off. -/
theorem Settled.bind {α β : Type} {tail : List Char} {c : Cursor}
    {result longer : Except Fault (α × Cursor)}
    {next next' : α × Cursor → Except Fault (β × Cursor)}
    (first : Settled tail c result longer)
    (later : ∀ a last, Passes c.rest last.rest →
      Settled tail c (next (a, last)) (next' (a, last.goingOn tail))) :
    Settled tail c (result >>= next) (longer >>= next') := by
  match result, first with
  | .ok (a, last), ⟨passes, same⟩ =>
    subst same
    exact later a last passes
  | .error (.malformed ..), _ => trivial
  | .error (.tooManyDigits _), same | .error (.tooNested _), same =>
    subst same
    exact rfl

/-! ## Strings -/

theorem visible_of_hexDigit? {c : Char} {n : Nat} (digit : hexDigit? c = some n) :
    0x20 ≤ c.toNat := by
  simp only [hexDigit?, Bool.and_eq_true, decide_eq_true_eq, Char.le_def, UInt32.le_iff_toNat_le]
    at digit
  split at digit
  · rename_i small
    exact Nat.le_trans (by decide) small.1
  · split at digit
    · rename_i small
      exact Nat.le_trans (by decide) small.1
    · split at digit
      · rename_i large
        exact Nat.le_trans (by decide) large.1
      · cases digit

theorem visible_of_simpleEscape? {c d : Char} (escape : simpleEscape? c = some d) :
    0x20 ≤ c.toNat := by
  unfold simpleEscape? at escape
  split at escape <;> first | decide | cases escape

theorem passes_hexUnit? {cs : List Char} {n : Nat} (unit : hexUnit? cs = some n) :
    Passes cs (cs.drop 4) := by
  unfold hexUnit? at unit
  split at unit
  · rename_i a b c d rest
    simp only [Option.bind_eq_bind, Option.bind_eq_some_iff] at unit
    obtain ⟨_, first, _, second, _, third, _, fourth, -⟩ := unit
    have stands {c : Char} {n : Nat} (digit : hexDigit? c = some n) : mayStand c = true :=
      mayStand_of_visible (visible_of_hexDigit? digit)
    exact .cons (stands first) (.cons (stands second) (.cons (stands third)
      (.cons (stands fourth) (.refl _))))
  · cases unit

theorem passes_unit {cs : List Char} {n : Nat} (unit : hexUnit? cs = some n) :
    Passes ('\\' :: 'u' :: cs) (cs.drop 4) :=
  .cons (by decide) (.cons (by decide) (passes_hexUnit? unit))

/-- Four digits that more follows are the same in a text that goes on. -/
theorem hexUnit?_append {cs : List Char} {n : Nat} (unit : hexUnit? cs = some n)
    (long : ¬ (cs.drop 4).isEmpty = true) (tail : List Char) :
    hexUnit? (cs ++ tail) = some n ∧ ¬ ((cs ++ tail).drop 4).isEmpty = true ∧
      (cs ++ tail).drop 4 = cs.drop 4 ++ tail := by
  unfold hexUnit? at unit
  split at unit
  · rename_i a b c d rest
    have filled : rest ≠ [] := by simpa using long
    exact ⟨unit, by simp [filled], rfl⟩
  · cases unit

/-- A text that ends within an escape, so that no string is complete in it. -/
def CutOff (cs : List Char) : Prop :=
  cs = [] ∨ cs = ['\\'] ∨ ∃ rest, cs = '\\' :: 'u' :: rest ∧ (rest.drop 4).isEmpty = true

theorem readString_of_cutOff {c : Cursor} (cutOff : CutOff c.rest) (start : Nat) (done : List Char)
    (steps : Nat) : ∃ cause position,
      readString start done steps c = .error (.malformed cause position) := by
  obtain ⟨position, cs⟩ := c
  cases steps with
  | zero => exact ⟨_, _, by rw [readString.eq_def]⟩
  | succ steps =>
    obtain rfl | rfl | ⟨rest, rfl, short⟩ := cutOff
    · exact ⟨_, _, rfl⟩
    · exact ⟨_, _, rfl⟩
    · refine ⟨.unicodeEscape, position + 1, ?_⟩
      simp [readString, short]

theorem passes_secondHalf {cs : List Char} {low : Nat} (half : secondHalf cs = .low low) :
    Passes cs (cs.drop 6) := by
  unfold secondHalf at half
  split at half
  · split at half
    · cases half
    · split at half
      · rename_i n unit
        exact passes_unit unit
      · cases half
  · cases half

theorem secondHalf_append {cs : List Char} {low : Nat} (half : secondHalf cs = .low low)
    (tail : List Char) :
    secondHalf (cs ++ tail) = .low low ∧ (cs ++ tail).drop 6 = cs.drop 6 ++ tail := by
  unfold secondHalf at half
  split at half
  · rename_i rest
    split at half
    · cases half
    · rename_i long
      split at half
      · rename_i n unit
        obtain ⟨unit', long', after⟩ := hexUnit?_append unit long tail
        refine ⟨?_, after⟩
        rw [← half]
        simp [secondHalf, long', unit']
      · cases half
  · cases half

/-- Where no second half is in front, there is none if the text goes on, unless it is cut off. -/
theorem secondHalf_append_other {cs : List Char} (half : secondHalf cs = .other)
    (tail : List Char) : CutOff cs ∨ secondHalf (cs ++ tail) = .other := by
  unfold secondHalf at half
  split at half
  · rename_i rest
    split at half
    · rename_i short
      exact .inl (.inr (.inr ⟨rest, rfl, short⟩))
    · rename_i long
      split at half
      · rename_i n unit
        obtain ⟨unit', long', -⟩ := hexUnit?_append unit long tail
        refine .inr ?_
        rw [← half]
        simp [secondHalf, long', unit']
      · cases half
  · rename_i noEscape
    rcases cs with _ | ⟨c, _ | ⟨d, rest⟩⟩
    · exact .inl (.inl rfl)
    · by_cases escape : c = '\\'
      · exact .inl (.inr (.inl (by rw [escape])))
      · refine .inr ?_
        simp [secondHalf, escape]
    · refine .inr ?_
      have noEscape' : ∀ rest', c :: d :: (rest ++ tail) ≠ '\\' :: 'u' :: rest' := by
        intro rest' same
        obtain ⟨escape, later⟩ := List.cons.inj same
        obtain ⟨unit, -⟩ := List.cons.inj later
        exact noEscape rest (by rw [escape, unit])
      exact secondHalf.eq_2 _ noEscape'

/-- The next character `d` of a string whose rest is given, with how many characters it is written
and what is left after them. -/
inductive NextChar : (cs : List Char) → (d : Char) → (count : Nat) → (left : List Char) → Prop
  | plain {d : Char} {rest : List Char} (noQuote : d ≠ '"') (noEscape : d ≠ '\\')
      (visible : ¬ d.toNat < 0x20) : NextChar (d :: rest) d 1 rest
  | escape {e d : Char} {rest : List Char} (escape : simpleEscape? e = some d) :
      NextChar ('\\' :: e :: rest) d 2 rest
  | single {rest : List Char} {n : Nat} (long : ¬ (rest.drop 4).isEmpty = true)
      (unit : hexUnit? rest = some n) (single : ¬ (0xD800 ≤ n && n < 0xDC00) = true) :
      NextChar ('\\' :: 'u' :: rest) (scalar n) 6 (rest.drop 4)
  | pair {rest : List Char} {n low : Nat} (long : ¬ (rest.drop 4).isEmpty = true)
      (unit : hexUnit? rest = some n) (first : (0xD800 ≤ n && n < 0xDC00) = true)
      (half : secondHalf (rest.drop 4) = .low low) :
      NextChar ('\\' :: 'u' :: rest)
        (Char.ofNat (0x10000 + (n - 0xD800) * 0x400 + (low - 0xDC00))) 12 ((rest.drop 4).drop 6)
  | lone {rest : List Char} {n : Nat} (long : ¬ (rest.drop 4).isEmpty = true)
      (unit : hexUnit? rest = some n) (first : (0xD800 ≤ n && n < 0xDC00) = true)
      (half : secondHalf (rest.drop 4) = .other) :
      NextChar ('\\' :: 'u' :: rest) '\uFFFD' 6 (rest.drop 4)

section NextChar
variable {cs left : List Char} {d : Char} {count : Nat}

theorem NextChar.passes (next : NextChar cs d count left) : Passes cs left := by
  cases next with
  | plain noQuote noEscape visible =>
    exact .cons (mayStand_of_visible (Nat.not_lt.mp visible)) (.refl _)
  | escape escape =>
    have stands := mayStand_of_visible (visible_of_simpleEscape? escape)
    exact .cons (by decide) (.cons stands (.refl _))
  | single long unit single => exact passes_unit unit
  | pair long unit first half => exact (passes_unit unit).trans (passes_secondHalf half)
  | lone long unit first half => exact passes_unit unit

/-- If the text goes on, a string has the same next character, unless it is cut off after it. -/
theorem NextChar.goesOn (next : NextChar cs d count left) (tail : List Char) :
    CutOff left ∨ NextChar (cs ++ tail) d count (left ++ tail) := by
  cases next with
  | plain noQuote noEscape visible => exact .inr (.plain noQuote noEscape visible)
  | escape escape => exact .inr (.escape escape)
  | single long unit single =>
    obtain ⟨unit', long', left'⟩ := hexUnit?_append unit long tail
    exact .inr (left' ▸ .single long' unit' single)
  | pair long unit first half =>
    obtain ⟨unit', long', left'⟩ := hexUnit?_append unit long tail
    obtain ⟨half', after⟩ := secondHalf_append half tail
    rw [← left'] at half' after
    exact .inr (after ▸ .pair long' unit' first half')
  | lone long unit first half =>
    obtain ⟨unit', long', left'⟩ := hexUnit?_append unit long tail
    refine (secondHalf_append_other half tail).imp_right fun half' => ?_
    rw [← left'] at half' ⊢
    exact .lone long' unit' first half'

theorem readString_next {c : Cursor} (next : NextChar c.rest d count left) (start : Nat)
    (done : List Char) (steps : Nat) : readString start done (steps + 1) c =
      readString start (d :: done) steps (c.advance count left) := by
  obtain ⟨position, cs⟩ := c
  change NextChar cs d count left at next
  rw [readString.eq_def]
  cases next with
  | plain noQuote noEscape visible => simp [visible]
  | escape escape =>
    rename_i e
    have other : e ≠ 'u' := by
      rintro rfl
      cases escape
    simp [escape]
  | single long unit single => simp [long, unit, single]
  | pair long unit first half => simp [long, unit, first, half]
  | lone long unit first half => simp [long, unit, first, half]

/-- What is settled from a string's next character on is settled from that character. -/
theorem settled_next {tail : List Char} {c : Cursor} {start steps more : Nat} {done : List Char}
    (next : NextChar c.rest d count left)
    (later : Settled tail (c.advance count left)
      (readString start (d :: done) steps (c.advance count left))
      (readString start (d :: done) (more + steps) ((c.advance count left).goingOn tail))) :
    Settled tail c (readString start (d :: done) steps (c.advance count left))
      (readString start done (more + (steps + 1)) (c.goingOn tail)) := by
  rcases next.goesOn tail with cutOff | next'
  · obtain ⟨cause, position, fault⟩ :=
      readString_of_cutOff (c := c.advance count left) cutOff start (d :: done) steps
    rw [fault]
    trivial
  · rw [← Nat.add_assoc, readString_next (c := c.goingOn tail) next']
    exact later.after next.passes

end NextChar

/-- A string that is read is settled by its characters up to the closing quote, whatever steps more
are allowed. -/
theorem settled_readString (tail : List Char) (start : Nat) (done : List Char) (steps more : Nat)
    (c : Cursor) : Settled tail c (readString start done steps c)
      (readString start done (more + steps) (c.goingOn tail)) := by
  fun_induction readString start done steps c with
  | case1 | case2 | case4 | case5 | case6 | case8 | case12 | case13 => trivial
  | case3 done c steps rest here =>
    obtain ⟨position, cs⟩ := c
    subst here
    exact ⟨.cons (by decide) (.refl _), rfl⟩
  | case7 =>
    rename_i done c steps rest long n unit left first low half point here ih
    exact settled_next (here ▸ .pair long unit first half) ih
  | case9 =>
    rename_i done c steps rest long n unit left first half here ih
    exact settled_next (here ▸ .lone long unit first half) ih
  | case10 =>
    rename_i done c steps rest long n unit left single here ih
    exact settled_next (here ▸ .single long unit single) ih
  | case11 done c steps e rest other escaped escape here ih =>
    exact settled_next (here ▸ .escape escape) ih
  | case14 done c steps other rest noQuote noEscape here visible ih =>
    exact settled_next (here ▸ .plain noQuote noEscape visible) ih

/-! ## Values -/

theorem Cursor.jump_goingOn (c : Cursor) (rest tail : List Char) :
    (c.goingOn tail).jump (rest ++ tail) = (c.jump rest).goingOn tail := by
  have count : (c.rest ++ tail).length - (rest ++ tail).length = c.rest.length - rest.length := by
    rw [List.length_append, List.length_append]
    omega
  rw [Cursor.jump, Cursor.rest_goingOn, count]
  rfl

theorem passes_skipBlanks (c : Cursor) : Passes c.rest c.skipBlanks.rest :=
  Passes.dropWhile (fun d blank => by simp [mayStand, blank]) c.rest

section Values
variable {x : Char} {back : List Char} {c : Cursor}

theorem skipBlanks_goingOn (foreign : 0x7F < x.toNat) (c : Cursor) :
    (c.goingOn (x :: back)).skipBlanks = c.skipBlanks.goingOn (x :: back) := by
  have left := (takeWhile_foreign (not_isBlank_of_foreign foreign) c.rest back).2
  rw [Cursor.skipBlanks, Cursor.rest_goingOn, left]
  exact c.jump_goingOn _ _

theorem front_of_foreign (foreign : 0x7F < x.toNat) {cs rest : List Char} {d : Char}
    (ascii : d.toNat ≤ 0x7F) (front : cs ++ x :: back = d :: rest) : ∃ left, cs = d :: left := by
  cases cs with
  | nil => exact absurd (List.cons.inj front).1 (ne_of_foreign foreign ascii)
  | cons c cs => exact ⟨cs, by rw [(List.cons.inj front).1]⟩

/-- A text that does not begin with a mark does not do so if it goes on beyond ASCII. -/
theorem append_ne_mark (foreign : 0x7F < x.toNat) {cs rest : List Char} {mark : Char}
    (ascii : mark.toNat ≤ 0x7F) (other : ∀ left, cs ≠ mark :: left) :
    cs ++ x :: back ≠ mark :: rest := by
  intro front
  obtain ⟨left, here⟩ := front_of_foreign foreign ascii front
  exact other left here

/-- The text after an opening quote. -/
theorem settled_text {tail rest : List Char} (here : c.rest = '"' :: rest) :
    Settled tail c (readString c.position [] (rest.length + 1) (c.advance 1 rest))
      (readString c.position [] ((rest ++ tail).length + 1)
        ((c.goingOn tail).advance 1 (rest ++ tail))) := by
  have steps : (rest ++ tail).length + 1 = tail.length + (rest.length + 1) := by
    rw [List.length_append]
    omega
  rw [steps]
  exact .after (here ▸ .cons (by decide) (.refl _)) (settled_readString ..)

theorem passes_mark (c : Cursor) {d : Char} {rest : List Char} (stands : mayStand d = true) :
    Passes (d :: rest) (c.advance 1 rest).skipBlanks.rest :=
  .cons stands (passes_skipBlanks (c.advance 1 rest))

theorem skipBlanks_mark (foreign : 0x7F < x.toNat) {rest : List Char} :
    ((c.goingOn (x :: back)).advance 1 (rest ++ x :: back)).skipBlanks =
      (c.advance 1 rest).skipBlanks.goingOn (x :: back) :=
  skipBlanks_goingOn foreign (c.advance 1 rest)

/-- What is settled from every cursor is settled after a mark and the blanks after it. -/
theorem Settled.afterMark {α : Type} (foreign : 0x7F < x.toNat)
    {read longer : Cursor → Except Fault (α × Cursor)}
    (settled : ∀ c, Settled (x :: back) c (read c) (longer (c.goingOn (x :: back)))) {d : Char}
    {rest : List Char} {next : Cursor} (stands : mayStand d = true)
    (passes : Passes c.rest (d :: rest)) :
    Settled (x :: back) c (read (next.advance 1 rest).skipBlanks)
      (longer ((next.goingOn (x :: back)).advance 1 (rest ++ x :: back)).skipBlanks) := by
  rw [skipBlanks_mark foreign]
  exact (settled _).after (passes.trans (passes_mark next stands))

theorem settled_readScalar (foreign : 0x7F < x.toNat) (c : Cursor) :
    Settled (x :: back) c (readScalar c) (readScalar (c.goingOn (x :: back))) := by
  rw [readScalar, readScalar, Cursor.rest_goingOn, cuts_splitScalar?.goesOn foreign]
  cases found : splitScalar? c.rest with
  | none => trivial
  | some cut =>
    obtain ⟨value, rest⟩ := cut
    simp only [Option.map_some, Cursor.jump_goingOn]
    match value with
    | .ok j => exact ⟨cuts_splitScalar?.passes found, rfl⟩
    | .error (.malformed ..) => trivial
    | .error (.tooManyDigits _) | .error (.tooNested _) => exact rfl

variable {room : Room} {height steps steps' : Nat}

section Descent

/-! With as many steps, every value is settled. -/

variable (values : ∀ c, Settled (x :: back) c (readValue room height steps c)
    (readValue room height steps' (c.goingOn (x :: back))))

include values in
theorem settled_readItems (foreign : 0x7F < x.toNat) {done : List Json}
    (items : ∀ done c, Settled (x :: back) c (readItems room height done steps c)
      (readItems room height done steps' (c.goingOn (x :: back)))) (c : Cursor) :
    Settled (x :: back) c (readItems room height done (steps + 1) c)
      (readItems room height done (steps' + 1) (c.goingOn (x :: back))) := by
  simp only [readItems]
  refine (values c).bind fun j next passes => ?_
  have passes := passes.trans (passes_skipBlanks next)
  simp only [skipBlanks_goingOn foreign, Cursor.rest_goingOn]
  generalize next.skipBlanks = next at passes ⊢
  split
  · rename_i rest here
    rw [here] at passes ⊢
    exact ⟨passes.trans (.cons (by decide) (.refl _)), rfl⟩
  · rename_i rest here
    rw [here] at passes ⊢
    exact .afterMark foreign (items (j :: done)) (by decide) passes
  · trivial

include values in
theorem settled_readMembers (foreign : 0x7F < x.toNat) {done : List (String × Json)}
    (members : ∀ done c, Settled (x :: back) c (readMembers room height done steps c)
      (readMembers room height done steps' (c.goingOn (x :: back)))) (c : Cursor) :
    Settled (x :: back) c (readMembers room height done (steps + 1) c)
      (readMembers room height done (steps' + 1) (c.goingOn (x :: back))) := by
  simp only [readMembers, Cursor.rest_goingOn, Cursor.position_goingOn]
  split
  · rename_i rest here
    rw [here, List.cons_append]
    refine (settled_text here).bind fun name next passes => ?_
    have passes := passes.trans (passes_skipBlanks next)
    simp only [skipBlanks_goingOn foreign, Cursor.rest_goingOn]
    generalize next.skipBlanks = next at passes ⊢
    split
    · rename_i rest here
      rw [here] at passes ⊢
      refine (Settled.afterMark foreign values (by decide) passes).bind fun j next passes => ?_
      have passes := passes.trans (passes_skipBlanks next)
      simp only [skipBlanks_goingOn foreign, Cursor.rest_goingOn]
      generalize next.skipBlanks = next at passes ⊢
      split
      · rename_i rest here
        rw [here] at passes ⊢
        exact ⟨passes.trans (.cons (by decide) (.refl _)), rfl⟩
      · rename_i rest here
        rw [here] at passes ⊢
        exact .afterMark foreign (members ((name, j) :: done)) (by decide) passes
      · trivial
    · trivial
  · trivial

theorem settled_readValue_succ (foreign : 0x7F < x.toNat)
    (members : ∀ done c, Settled (x :: back) c (readMembers room (height + 1) done steps c)
      (readMembers room (height + 1) done steps' (c.goingOn (x :: back))))
    (items : ∀ done c, Settled (x :: back) c (readItems room (height + 1) done steps c)
      (readItems room (height + 1) done steps' (c.goingOn (x :: back)))) (c : Cursor) :
    Settled (x :: back) c (readValue room height (steps + 1) c)
      (readValue room height (steps' + 1) (c.goingOn (x :: back))) := by
  simp only [readValue, Cursor.rest_goingOn, Cursor.position_goingOn]
  split
  · rename_i rest here
    rw [here, List.cons_append]
    refine (settled_text here).bind fun s next passes => ?_
    exact ⟨passes, rfl⟩
  · rename_i rest here
    rw [here, List.cons_append]
    have passes : Passes c.rest (c.advance 1 rest).skipBlanks.rest :=
      here ▸ passes_mark c (by decide)
    split
    · simp only [skipBlanks_mark foreign, Cursor.rest_goingOn]
      generalize (c.advance 1 rest).skipBlanks = next at passes ⊢
      split
      · rename_i rest here
        rw [here] at passes ⊢
        exact ⟨passes.trans (.cons (by decide) (.refl _)), rfl⟩
      · rename_i filled
        split
        · rename_i here
          exact absurd here (append_ne_mark foreign (by decide) filled)
        · exact (members [] next).after passes
    · exact rfl
  · rename_i rest here
    rw [here, List.cons_append]
    have passes : Passes c.rest (c.advance 1 rest).skipBlanks.rest :=
      here ▸ passes_mark c (by decide)
    split
    · simp only [skipBlanks_mark foreign, Cursor.rest_goingOn]
      generalize (c.advance 1 rest).skipBlanks = next at passes ⊢
      split
      · rename_i rest here
        rw [here] at passes ⊢
        exact ⟨passes.trans (.cons (by decide) (.refl _)), rfl⟩
      · rename_i filled
        split
        · rename_i here
          exact absurd here (append_ne_mark foreign (by decide) filled)
        · exact (items [] next).after passes
    · exact rfl
  · rename_i noString noObject noArray
    split
    · rename_i here
      exact absurd here (append_ne_mark foreign (by decide) noString)
    · rename_i here
      exact absurd here (append_ne_mark foreign (by decide) noObject)
    · rename_i here
      exact absurd here (append_ne_mark foreign (by decide) noArray)
    · exact settled_readScalar foreign c

end Descent

/-- What is read is settled by the characters that are taken, whatever steps more are allowed. -/
theorem settled_read (foreign : 0x7F < x.toNat) (enough : steps ≤ steps') :
    (∀ c, Settled (x :: back) c (readValue room height steps c)
      (readValue room height steps' (c.goingOn (x :: back)))) ∧
    (∀ done c, Settled (x :: back) c (readMembers room height done steps c)
      (readMembers room height done steps' (c.goingOn (x :: back)))) ∧
    (∀ done c, Settled (x :: back) c (readItems room height done steps c)
      (readItems room height done steps' (c.goingOn (x :: back)))) := by
  induction steps generalizing steps' height with
  | zero => exact ⟨fun _ => trivial, fun _ _ => trivial, fun _ _ => trivial⟩
  | succ steps ih =>
    obtain ⟨steps', rfl, fewer⟩ : ∃ k, steps' = k + 1 ∧ steps ≤ k := ⟨steps' - 1, by omega⟩
    obtain ⟨values, members, items⟩ := @ih height _ fewer
    obtain ⟨-, deeperMembers, deeperItems⟩ := @ih (height + 1) _ fewer
    exact ⟨settled_readValue_succ foreign deeperMembers deeperItems,
      fun _ => settled_readMembers values foreign members,
      fun _ => settled_readItems values foreign items⟩

end Values

/-! ## Whole texts -/

section Whole
variable {cs : List Char} {j : Json} {room : Room}

theorem read_eq (noMark : cs.head? ≠ some '\uFEFF') :
    read cs room = (do
      let (j, c) ← readValue room 0 (2 * cs.length + 2) (Cursor.skipBlanks ⟨0, cs⟩)
      if c.skipBlanks.rest.isEmpty then .ok j else .error (c.skipBlanks.fault .extra)) := by
  unfold read
  split
  · simp at noMark
  · rfl

theorem not_marked_of_read (accepted : read cs room = .ok j) : cs.head? ≠ some '\uFEFF' := by
  intro mark
  obtain ⟨rest, rfl⟩ := List.head?_eq_some_iff.mp mark
  cases accepted

/-- JSON is a value between blanks. -/
theorem exists_of_read (accepted : read cs room = .ok j) : ∃ next,
    readValue room 0 (2 * cs.length + 2) (Cursor.skipBlanks ⟨0, cs⟩) = .ok (j, next) ∧
      next.skipBlanks.rest = [] := by
  rw [read_eq (not_marked_of_read accepted)] at accepted
  cases value : readValue room 0 (2 * cs.length + 2) (Cursor.skipBlanks ⟨0, cs⟩) with
  | error fault =>
    rw [value] at accepted
    cases accepted
  | ok found =>
    obtain ⟨k, next⟩ := found
    rw [value] at accepted
    change (if next.skipBlanks.rest.isEmpty then Except.ok k else _) = _ at accepted
    split at accepted
    · rename_i ends
      cases accepted
      exact ⟨next, rfl, List.isEmpty_iff.mp ends⟩
    · cases accepted

/-- JSON has no control characters but blanks. -/
theorem mayStand_of_read (accepted : read cs room = .ok j) : ∀ c ∈ cs, mayStand c = true := by
  obtain ⟨next, value, ends⟩ := exists_of_read accepted
  -- What is passed is the same whatever the text might go on with.
  have foreign : 0x7F < '\u0080'.toNat := by decide
  have settled : Settled ['\u0080'] _ (readValue room 0 (2 * cs.length + 2) _) _ :=
    (settled_read foreign (Nat.le_refl _)).1 (Cursor.skipBlanks ⟨0, cs⟩)
  rw [value] at settled
  have passes : Passes cs [] :=
    (passes_skipBlanks ⟨0, cs⟩).trans (settled.1.trans (ends ▸ passes_skipBlanks next))
  obtain ⟨taken, rfl, all⟩ := passes
  simpa using all

/-- A text that goes on beyond ASCII to be JSON is none before: its syntax is at fault. -/
theorem malformed_of_read_append {x : Char} {front back : List Char} (foreign : 0x7F < x.toNat)
    (accepted : read (front ++ x :: back) room = .ok j) :
    ∃ cause position, read front room = .error (.malformed cause position) := by
  have noMark := not_marked_of_read accepted
  obtain ⟨next, value, ends⟩ := exists_of_read accepted
  cases front with
  | nil => exact ⟨.value, 0, rfl⟩
  | cons c front =>
    have noMark : (c :: front).head? ≠ some '\uFEFF' := noMark
    have fewer : 2 * (c :: front).length + 2 ≤ 2 * (c :: front ++ x :: back).length + 2 := by
      simp only [List.length_append]
      omega
    have settled : Settled (x :: back) _ _ (readValue room 0 _ (Cursor.skipBlanks ⟨0, _⟩)) :=
      skipBlanks_goingOn foreign ⟨0, c :: front⟩ ▸ (settled_read foreign fewer).1 _
    rw [value] at settled
    rw [read_eq noMark]
    match readValue room 0 (2 * (c :: front).length + 2) (Cursor.skipBlanks ⟨0, c :: front⟩),
      settled with
    | .ok (k, last), ⟨_, same⟩ =>
      cases same
      rw [skipBlanks_goingOn foreign] at ends
      simp at ends
    | .error (.malformed cause position), _ => exact ⟨cause, position, rfl⟩
    | .error (.tooManyDigits _), same | .error (.tooNested _), same => cases same

/-- No value begins at the end of a text or beyond ASCII. -/
theorem readValue_of_front {c : Cursor} (front : ∀ d ∈ c.rest.head?, 0x7F < d.toNat)
    (height steps : Nat) : readValue room height (steps + 1) c = .error (c.fault .value) := by
  have noScalar : splitScalar? c.rest = none := by
    cases here : c.rest with
    | nil => rfl
    | cons d rest => exact cuts_splitScalar?.goesOn (front d (by simp [here])) [] rest
  rw [readValue.eq_def]
  simp only
  split
  · rename_i rest here
    exact absurd (front '"' (by simp [here])) (by decide)
  · rename_i rest here
    exact absurd (front '\x7b' (by simp [here])) (by decide)
  · rename_i rest here
    exact absurd (front '[' (by simp [here])) (by decide)
  · rw [readScalar, noScalar]

/-- JSON begins in ASCII, blanks apart. -/
theorem front_of_read (accepted : read cs room = .ok j) : ∃ d rest,
    cs.dropWhile isBlank = d :: rest ∧ 0x20 < d.toNat ∧ d.toNat ≤ 0x7F := by
  obtain ⟨next, value, -⟩ := exists_of_read accepted
  obtain ⟨d, front, ascii⟩ : ∃ d ∈ (cs.dropWhile isBlank).head?, d.toNat ≤ 0x7F := by
    by_contra none
    have front : ∀ d ∈ (Cursor.skipBlanks ⟨0, cs⟩).rest.head?, 0x7F < d.toNat :=
      fun d member => Nat.lt_of_not_le fun ascii => none ⟨d, member, ascii⟩
    rw [readValue_of_front front] at value
    cases value
  obtain ⟨rest, left⟩ := List.head?_eq_some_iff.mp front
  have proper : isBlank d = false := by
    have head := List.head_dropWhile_not isBlank (l := cs) (by simp [left])
    simpa [left] using head
  have stands := mayStand_of_read accepted d
    ((List.dropWhile_sublist isBlank).subset (left ▸ List.mem_cons_self))
  have visible : 0x20 ≤ d.toNat := by simpa [mayStand, proper] using stands
  have noSpace : d.toNat ≠ 0x20 := by
    intro space
    obtain rfl : d = ' ' := Char.toNat_inj.mp space
    cases proper
  exact ⟨d, rest, left, by omega, ascii⟩

end Whole

end SchemaInference.Json
