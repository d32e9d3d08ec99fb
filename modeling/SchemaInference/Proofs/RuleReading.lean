import Mathlib.Data.List.Basic
import SchemaInference.Key.Pattern

/-! Reading the rules that inference writes. The rule of a convention is one of four fixed texts.
The rule of a stem has the escaped stem between fixed texts, and is read as the stem's own
characters whatever they are, so every rule that a pattern gives can be read. -/
namespace SchemaInference
namespace Regex.Read

/-- A reading of a text in which no flags are set and no groups are open. -/
def at_ (left : List Char) (position : Nat) : Reading := { left, position }

variable {c d : Char} {left rest : List Char} {position : Nat}

@[simp] theorem left_at : (at_ left position).left = left := rfl
@[simp] theorem position_at : (at_ left position).position = position := rfl
@[simp] theorem flags_at : (at_ left position).flags = [] := rfl
@[simp] theorem has_at (f : Flag) : (at_ left position).has f = false := rfl
@[simp] theorem folding_at : (at_ left position).folding = .exact := rfl
@[simp] theorem next?_at_nil : (at_ [] position).next? = none := rfl

theorem next?_at_cons (rest : List Char) (position : Nat) (plain : c ≠ '\\') :
    (at_ (c :: rest) position).next? = some (.plain c) := by
  simp [at_, Reading.next?, plain]

@[simp] theorem next?_at_escaped :
    (at_ ('\\' :: c :: rest) position).next? = some (.escaped c) := rfl

/-! ## Single steps -/

theorem ok_bind {α β : Type} (x : α) (next : α → Except Fault β) :
    (Except.ok x >>= next) = next x := rfl

theorem pure_eq_ok {α : Type} (x : α) : (pure x : Except Fault α) = .ok x := rfl

theorem run_pass (count : Nat) :
    (pass count).run (at_ left position) = .ok ((), at_ (left.drop count) (position + count)) := by
  simp [pass, at_, pure_eq_ok, ok_bind]

theorem run_eat_same (plain : c ≠ '\\') :
    (eat c).run (at_ (c :: rest) position) = .ok (true, at_ rest (position + 1)) := by
  simp [eat, next?_at_cons, plain, run_pass, pure_eq_ok, ok_bind]

theorem run_eat_other (plain : c ≠ '\\') (apart : c ≠ d) :
    (eat d).run (at_ (c :: rest) position) = .ok (false, at_ (c :: rest) position) := by
  simp [eat, next?_at_cons, plain, apart, pure_eq_ok, ok_bind]

theorem run_token? (plain : c ≠ '\\') :
    token?.run (at_ (c :: rest) position) = .ok (some (.plain c), at_ rest (position + 1)) := by
  simp [token?, next?_at_cons, plain, run_pass, Token.size, Token.text, pure_eq_ok, ok_bind]

/-- The characters that end a stem, as the rule of a stem writes them. -/
def separators : CharSet := { items := [.one '_'.toNat, .one '.'.toNat] }

section Items
variable {here steps : Nat} {done : List SetItem}

/-- A character within a set stands for itself, if no dash follows. -/
theorem run_setItems_plain (plain : c ≠ '\\') (within : c ≠ ']') (plain' : d ≠ '\\')
    (noDash : d ≠ '-') :
    (setItems here (steps + 1) done).run (at_ (c :: d :: rest) position) =
      (setItems here steps (.one c.toNat :: done)).run (at_ (d :: rest) (position + 1)) := by
  simp [setItems, setItem, run_token? plain, run_eat_other plain' noDash, within, ok_bind]

theorem run_setItems_close (filled : done ≠ []) :
    (setItems here (steps + 1) done).run (at_ (']' :: rest) position) =
      .ok (done.reverse, at_ rest (position + 1)) := by
  simp [setItems, run_token?, filled, pure_eq_ok, ok_bind]

end Items

theorem run_charSet :
    charSet.run (at_ ('_' :: '.' :: ']' :: rest) position) =
      .ok (separators, at_ rest (position + 3)) := by
  simp [charSet, run_eat_other, run_setItems_plain, run_setItems_close, pure_eq_ok, ok_bind]
  rfl

/-! ## Pieces -/

variable {steps : Nat} {first : Bool} {done : List Regex} {last : Repeatable}

/-- Pieces end where the text does or a parenthesis closes. -/
theorem run_pieces_end (ends : (at_ left position).next? = none ∨
    (at_ left position).next? = some (.plain ')')) :
    (pieces (steps + 1) first done last).run (at_ left position) =
      .ok (sequence done.reverse, at_ left position) := by
  rcases ends with ends | ends <;> simp [pieces, ends, pure_eq_ok, ok_bind]

theorem run_pieces_nil :
    (pieces (steps + 1) first done last).run (at_ [] position) =
      .ok (sequence done.reverse, at_ [] position) :=
  run_pieces_end (.inl rfl)

theorem run_pieces_close :
    (pieces (steps + 1) first done last).run (at_ (')' :: rest) position) =
      .ok (sequence done.reverse, at_ (')' :: rest) position) :=
  run_pieces_end (.inr (next?_at_cons rest position (by decide)))

/-- A piece that a single character begins is put before those done. -/
theorem run_pieces_piece {r : Regex} {later : Nat} (begins : c ∉ ['\\', '|', ')', '('])
    (noMark : repeats c = false)
    (read : (piece c).run (at_ rest (position + 1)) = .ok (r, at_ left later)) :
    (pieces (steps + 1) first done last).run (at_ (c :: rest) position) =
      (pieces steps first (r :: done) (.ofPiece r)).run (at_ left later) := by
  simp only [List.mem_cons, List.not_mem_nil, or_false, not_or] at begins
  obtain ⟨plain, noBar, noClose, noOpen⟩ := begins
  simp [pieces, next?_at_cons rest position plain, noOpen, run_pass, noMark, read, ok_bind]

/-- A character that is no special one stands for itself. -/
theorem run_pieces_plain (ordinary : c ∉ KeyPattern.specialChars) :
    (pieces (steps + 1) first done last).run (at_ (c :: rest) position) =
      (pieces steps first (char c :: done) .piece).run (at_ rest (position + 1)) := by
  let special : List Char := ['\\', '|', ')', '(', '[', '.', '^', '$', '*', '+', '?', '\x7b']
  have among : special.all KeyPattern.specialChars.contains = true := by decide
  have apart : c ∉ special := fun member =>
    ordinary (List.contains_iff_mem.mp (List.all_eq_true.mp among c member))
  simp only [special, List.mem_cons, List.not_mem_nil, or_false, not_or] at apart
  have literal :
      (piece c).run (at_ rest (position + 1)) = .ok (char c, at_ rest (position + 1)) := by
    simp [piece, apart, char, CharSet.just, pure_eq_ok]
  exact run_pieces_piece (by simp [apart]) (by simp [repeats, apart]) literal

/-- A special character after a backslash stands for itself. -/
theorem run_escape (special : c ∈ KeyPattern.specialChars) :
    (escape c).run (at_ left position) = .ok (char c, at_ left position) := by
  -- Decided along the list: of all characters there are too many.
  have none : KeyPattern.specialChars.Forall fun c => anchor? false c = none ∧ control? c = none ∧
      class? c = none ∧ c.isAlpha = false ∧ c.isDigit = false ∧
      c ∉ ['0', 'x', 'u', 'U', 'N'] := by decide
  obtain ⟨noAnchor, noControl, noClass, noLetter, noDigit, apart⟩ :=
    List.forall_iff_forall_mem.mp none c special
  simp only [List.mem_cons, List.not_mem_nil, or_false, not_or] at apart
  simp [escape, itemEscape, noAnchor, noControl, noClass, noLetter, noDigit, apart, char,
    CharSet.just, pure_eq_ok, ok_bind]
  rfl

theorem run_pieces_escaped (special : c ∈ KeyPattern.specialChars) :
    (pieces (steps + 1) first done last).run (at_ ('\\' :: c :: rest) position) =
      (pieces steps first (char c :: done) .piece).run (at_ rest (position + 2)) := by
  simp [pieces, run_pass, run_escape special, ok_bind, char, Repeatable.ofPiece]

/-- An escaped text stands for its own characters. -/
theorem run_pieces_literal (steps position : Nat) (first : Bool) (done : List Regex)
    (last : Repeatable) (text rest : List Char) : ∃ last',
    (pieces (steps + text.length) first done last).run
        (at_ (KeyPattern.escaped text ++ rest) position) =
      (pieces steps first ((text.map char).reverse ++ done) last').run
        (at_ rest (position + (KeyPattern.escaped text).length)) := by
  induction text generalizing position done last with
  | nil => exact ⟨last, rfl⟩
  | cons c text ih =>
    by_cases special : c ∈ KeyPattern.specialChars
    · obtain ⟨last', read⟩ := ih (position + 2) (char c :: done) .piece
      refine ⟨last', ?_⟩
      have front : KeyPattern.escaped (c :: text) = '\\' :: c :: KeyPattern.escaped text := by
        simp [KeyPattern.escaped, special]
      rw [front, List.cons_append, List.cons_append, List.length_cons, ← Nat.add_assoc,
        run_pieces_escaped special, read]
      simp only [List.map_cons, List.reverse_cons, List.append_assoc, List.singleton_append,
        List.length_cons]
      congr 2
      omega
    · obtain ⟨last', read⟩ := ih (position + 1) (char c :: done) .piece
      refine ⟨last', ?_⟩
      have front : KeyPattern.escaped (c :: text) = c :: KeyPattern.escaped text := by
        simp [KeyPattern.escaped, special]
      rw [front, List.cons_append, List.length_cons, ← Nat.add_assoc, run_pieces_plain special,
        read]
      simp only [List.map_cons, List.reverse_cons, List.append_assoc, List.singleton_append,
        List.length_cons]
      congr 2
      omega

theorem run_pieces_dot :
    (pieces (steps + 1) first done last).run (at_ ('.' :: rest) position) =
      (pieces steps first (.one .line :: done) .piece).run (at_ rest (position + 1)) :=
  run_pieces_piece (by decide) rfl (by simp [piece, pure_eq_ok])

theorem run_pieces_textEnd :
    (pieces (steps + 1) first done last).run (at_ ('$' :: rest) position) =
      (pieces steps first (.anchor .textEnd :: done) .nothing).run (at_ rest (position + 1)) :=
  run_pieces_piece (by decide) rfl (by simp [piece, pure_eq_ok])

theorem run_pieces_textStart :
    (pieces (steps + 1) first done last).run (at_ ('^' :: rest) position) =
      (pieces steps first (.anchor .textStart :: done) .nothing).run (at_ rest (position + 1)) :=
  run_pieces_piece (by decide) rfl (by simp [piece, pure_eq_ok])

theorem run_pieces_separators :
    (pieces (steps + 1) first done last).run (at_ ('[' :: '_' :: '.' :: ']' :: rest) position) =
      (pieces steps first (.one separators :: done) .piece).run (at_ rest (position + 4)) :=
  run_pieces_piece (by decide) rfl (by simp [piece, run_charSet])

/-- A mark of repetition that no second mark follows repeats the piece before it. -/
theorem run_pieces_repeat {r : Regex} {least : Nat} {most : Option Nat} (mark : repeats c = true)
    (bounds : repetition? c = pure (some (least, most))) (plain : d ≠ '\\') (notFewest : d ≠ '?')
    (notKeeping : d ≠ '+') :
    (pieces (steps + 1) first (r :: done) .piece).run (at_ (c :: d :: rest) position) =
      (pieces steps first (.repeated .most least most r :: done) .repetition).run
        (at_ (d :: rest) (position + 1)) := by
  have greedy : greed.run (at_ (d :: rest) (position + 1)) =
      .ok (.most, at_ (d :: rest) (position + 1)) := by
    simp [greed, run_eat_other, plain, notFewest, notKeeping, pure_eq_ok, ok_bind]
  have apart (other : Char) (noMark : repeats other = false) : c ≠ other := by
    rintro rfl
    simp [noMark] at mark
  have next := next?_at_cons (d :: rest) position (apart '\\' rfl)
  simp [pieces, next, apart '|' rfl, apart ')' rfl, apart '(' rfl, run_pass, mark, bounds,
    repeatLast, greedy, pure_eq_ok, ok_bind]

/-- What may follow a stem: an underscore or a point, and then anything but a line feed. -/
def extension : Regex := .opt (.seq (.one separators) (.star (.one .line)))

/-- What stands between the parentheses of the rule of a stem. -/
theorem run_alternatives_extension (steps position : Nat) (rest : List Char) :
    (alternatives (steps + 5) false).run (at_ ("[_.].*)".toList ++ rest) position) =
      .ok (.seq (.one separators) (.star (.one .line)), at_ (')' :: rest) (position + 6)) := by
  have text :
      "[_.].*)".toList ++ rest = '[' :: '_' :: '.' :: ']' :: '.' :: '*' :: ')' :: rest := rfl
  rw [text, alternatives, StateT.run_bind, run_pieces_separators, run_pieces_dot,
    run_pieces_repeat rfl rfl (by decide) (by decide) (by decide), run_pieces_close, ok_bind]
  simp [run_eat_other, sequence, star, pure_eq_ok, ok_bind]

theorem run_bracket {here : Nat} {r : Regex} {between : List Char} {later : Nat}
    (read : (alternatives steps false).run (at_ between position) =
      .ok (r, at_ (')' :: rest) later)) :
    (bracket (steps + 1) here [] .plain).run (at_ between position) =
      .ok (r, at_ rest (later + 1)) := by
  have restored :
      { at_ (')' :: rest) later with look := (at_ between position).look, flags := [] } =
        at_ (')' :: rest) later := rfl
  simp only [left_at, position_at] at restored
  simp [bracket, enter, read, restored, expectClosing, run_eat_same, close, pure_eq_ok, ok_bind]

/-- What parentheses enclose is one piece more. -/
theorem run_pieces_open {r : Regex} {b : Bracket} {between : List Char} {begins ends : Nat}
    (opened : (opening position).run (at_ left (position + 1)) =
      .ok (.bracket b, at_ between begins))
    (read : (bracket steps position [] b).run (at_ between begins) = .ok (r, at_ rest ends)) :
    (pieces (steps + 1) first done last).run (at_ ('(' :: left) position) =
      (pieces steps first (r :: done) .piece).run (at_ rest ends) := by
  have next := next?_at_cons left position (show '(' ≠ '\\' by decide)
  simp [pieces, next, run_pass, opened, read, ok_bind]

theorem run_pieces_bracket {r : Regex} {between : List Char} {later : Nat}
    (read : (alternatives steps false).run (at_ between (position + 3)) =
      .ok (r, at_ (')' :: rest) later)) :
    (pieces (steps + 2) first done last).run (at_ ('(' :: '?' :: ':' :: between) position) =
      (pieces (steps + 1) first (r :: done) .piece).run (at_ rest (later + 1)) := by
  have opened : (opening position).run (at_ ('?' :: ':' :: between) (position + 1)) =
      .ok (.bracket .plain, at_ between (position + 3)) := by
    simp [opening, run_eat_same, run_token?, pure_eq_ok, ok_bind]
  exact run_pieces_open opened (run_bracket read)

/-- The text after the stem in the rule of a stem. -/
theorem run_pieces_extension (steps position : Nat) (first : Bool) (done : List Regex)
    (last : Repeatable) : ∃ position',
    (pieces (steps + 8) first done last).run (at_ "(?:[_.].*)?$".toList position) =
      .ok (sequence (.anchor .textEnd :: extension :: done).reverse, at_ [] position') := by
  have text : "(?:[_.].*)?$".toList =
      '(' :: '?' :: ':' :: ("[_.].*)".toList ++ ['?', '$']) := rfl
  refine ⟨position + 12, ?_⟩
  rw [text, run_pieces_bracket (run_alternatives_extension (steps + 1) _ _),
    run_pieces_repeat rfl rfl (by decide) (by decide) (by decide), run_pieces_textEnd,
    run_pieces_nil]
  rfl

/-- A text whose pieces are all there is to it is read as their sequence. -/
theorem run_whole {text : List Char} {r : Regex} {later : Nat} (filled : text ≠ [])
    (read : (pieces (3 * text.length + 2) true [] .nothing).run (at_ text 0) =
      .ok (r, at_ [] later)) (sound : r.flaw? false = none) :
    whole.run (at_ text 0) = .ok (r, at_ [] later) := by
  have notAhead : (eat '|').run (at_ [] later) = .ok (false, at_ [] later) := by
    simp [eat, pure_eq_ok, ok_bind]
  have nothingAsked : (at_ [] later).asked = [] := rfl
  simp [whole, alternatives, filled, read, notAhead, nothingAsked, sound, pure_eq_ok, ok_bind]

end Regex.Read

namespace Regex

theorem flaw?_sequence {bare : Bool} {rs : List Regex} (sound : ∀ r ∈ rs, r.flaw? bare = none) :
    (sequence rs).flaw? bare = none := by
  fun_induction sequence rs with
  | case1 => rfl
  | case2 r => exact sound r (by simp)
  | case3 r rest _ ih =>
    obtain ⟨first, later⟩ := List.forall_mem_cons.mp sound
    simp [flaw?, first, ih later]

/-- A text that begins and ends with the anchors of a rule does not end in a backslash. -/
theorem ofText_of_whole {text : List Char} {r : Regex} {later : Nat}
    (read : Read.whole.run (Read.at_ text 0) = .ok (r, Read.at_ [] later))
    (closed : text.getLast? = some '$') : ofText (String.ofList text) = .ok r := by
  have notLone : endsInBackslash text = false := by
    obtain ⟨front, rfl⟩ := List.getLast?_eq_some_iff.mp closed
    simp [endsInBackslash]
  have start : ({ left := text, endsInBackslash := false } : Reading) = Read.at_ text 0 := rfl
  simp [ofText, notLone, start, StateT.run'_eq, read]

end Regex

namespace KeyPattern
open Regex

/-- What the rule of a stem is read as. -/
def stemExpression (stem : List Char) : Regex :=
  .sequence (.anchor .textStart :: (stem.map char ++ [Read.extension, .anchor .textEnd]))

theorem length_le_length_escaped (text : List Char) : text.length ≤ (escaped text).length := by
  induction text with
  | nil => simp
  | cons c text ih =>
    simp only [escaped] at ih ⊢
    rw [List.flatMap_cons, List.length_append, List.length_cons]
    split <;> simp only [List.length_cons, List.length_nil] <;> omega

theorem expression_stemRule (stem : String) :
    (stemRule stem).expression = .ok (stemExpression stem.toList) := by
  let text : List Char := '^' :: (escaped stem.toList ++ "(?:[_.].*)?$".toList)
  have rule : (stemRule stem).text = String.ofList text := by
    rw [← String.toList_inj]
    simp [stemRule, text, String.toList_append]
  have closed : text.getLast? = some '$' := by
    rw [List.getLast?_cons, List.getLast?_append]
    rfl
  have enough : ∃ steps, 3 * text.length + 2 = steps + 8 + stem.toList.length + 1 := by
    have short := length_le_length_escaped stem.toList
    refine ⟨3 * text.length + 2 - 1 - stem.toList.length - 8, ?_⟩
    have tail : "(?:[_.].*)?$".toList.length = 12 := rfl
    simp only [text, List.length_cons, List.length_append, tail]
    omega
  obtain ⟨steps, enough⟩ := enough
  obtain ⟨last, literal⟩ := Read.run_pieces_literal (steps + 8) 1 true [.anchor .textStart] .nothing
    stem.toList "(?:[_.].*)?$".toList
  obtain ⟨later, extension⟩ := Read.run_pieces_extension steps
    (1 + (escaped stem.toList).length) true
    ((stem.toList.map char).reverse ++ [Regex.anchor .textStart]) last
  have sound : (stemExpression stem.toList).flaw? false = none := by
    refine flaw?_sequence fun r member => ?_
    simp only [List.mem_cons, List.mem_append, List.mem_map, List.not_mem_nil, or_false] at member
    rcases member with rfl | ⟨c, _, rfl⟩ | rfl | rfl <;> rfl
  have read : (Read.pieces (3 * text.length + 2) true [] .nothing).run (Read.at_ text 0) =
      .ok (stemExpression stem.toList, Read.at_ [] later) := by
    rw [enough, Read.run_pieces_textStart, literal, extension]
    simp [stemExpression]
  rw [KeyRule.expression, rule]
  exact ofText_of_whole (Read.run_whole (List.cons_ne_nil _ _) read sound) closed

end KeyPattern

namespace Regex

theorem run_sequence_cons (r : Regex) (rest : List Regex) :
    (sequence (r :: rest)).run = (Regex.seq r (sequence rest)).run := by
  cases rest <;> rfl

/-- A last expression may be set apart from those before it. -/
theorem run_sequence_concat (rs : List Regex) (r : Regex) :
    (sequence (rs ++ [r])).run = (Regex.seq (sequence rs) r).run := by
  induction rs with
  | nil => rfl
  | cons first rest ih =>
    funext next p
    rw [List.cons_append, run_sequence_cons, run, ih]
    simp only [run, run_sequence_cons first rest]

/-- Anchors at both ends change nothing where a text has to match as a whole. -/
theorem accepts_whole (r : Regex) (cs : List Char) : (whole r).accepts cs = r.accepts cs := by
  have ends : (fun q : Place => if Anchor.textEnd.holds q.before q.after then
        (if q.after.isEmpty then some q else none) else none) =
      fun q => if q.after.isEmpty then some q else none := by
    funext q
    by_cases finished : q.after.isEmpty <;> simp [Anchor.holds, finished]
  have inner : (whole r).run (fun q => if q.after.isEmpty then some q else none) (.start cs) =
      r.run (fun q : Place => if Anchor.textEnd.holds q.before q.after then
        (if q.after.isEmpty then some q else none) else none) (.start cs) := rfl
  rw [accepts, inner, ends, accepts]

end Regex

namespace KeyPattern
open Regex

/-- What the rule of a stem is read as is run like the stem and what may follow it, between
anchors. -/
theorem run_stemExpression (stem : List Char) : (stemExpression stem).run =
    (whole (.sequence (stem.map char ++ [Read.extension]))).run := by
  have parts : stemExpression stem = .sequence
      (.anchor .textStart :: ((stem.map char ++ [Read.extension]) ++ [Regex.anchor .textEnd])) := by
    simp [stemExpression]
  funext next p
  rw [parts, run_sequence_cons, run, run_sequence_concat]
  rfl

/-- The rule of a convention is read as an expression that is run like the convention's own between
anchors. -/
theorem expression_convention {p : KeyPattern} {r : Regex} {text : String}
    (expression : p.regex? = some r) (written : p.regexText? = some text) :
    ∃ read, (KeyRule.mk ("^" ++ text ++ "$")).expression = .ok read ∧
      read.run = (whole r).run := by
  have ofSome {s : String} {read : Regex} (found : (ofText s).toOption = some read) :
      ofText s = .ok read := by
    cases result : ofText s <;> simp_all [Except.toOption]
  cases p with
  | word =>
    cases expression
    cases written
    exact ⟨whole (.plus lower), ofSome (by decide +kernel), rfl⟩
  | pascalCase =>
    cases expression
    cases written
    exact ⟨.seq (.anchor .textStart) (.seq upper (.seq (.plus lower) (.anchor .textEnd))),
      ofSome (by decide +kernel), rfl⟩
  | camelCase =>
    cases expression
    cases written
    exact ⟨.seq (.anchor .textStart) (.seq (.plus lower)
        (.seq (.star (.seq upper (.plus lower))) (.anchor .textEnd))),
      ofSome (by decide +kernel), rfl⟩
  | snakeCase =>
    cases expression
    cases written
    exact ⟨.seq (.anchor .textStart) (.seq (.plus lower)
        (.seq (.star (.seq (.char '_') (.plus lower))) (.anchor .textEnd))),
      ofSome (by decide +kernel), rfl⟩
  | numeric | prefixed | mixed => cases expression

/-! ## What rules admit -/

/-- A rule that can be read admits what its expression accepts. -/
theorem admits_of_expression {rule : KeyRule} {read : Regex} (readable : rule.expression = .ok read)
    (key : String) : rule.admits key = read.accepts key.toList := by
  -- An equation for `unfold` is slow to come by: it has the reader run on a text not yet known.
  delta KeyRule.admits
  rw [readable]

/-- A rule that can be read is found where its expression is. -/
theorem found_of_expression {rule : KeyRule} {read : Regex} (readable : rule.expression = .ok read)
    (key : String) : rule.found key = read.found key.toList := by
  delta KeyRule.found
  rw [readable]

/-- A rule that is read as an expression has no fault. -/
theorem wellFormed_of_expression {rule : KeyRule} {read : Regex}
    (readable : rule.expression = .ok read) : rule.WellFormed := by
  delta KeyRule.WellFormed KeyRule.fault?
  rw [readable]

/-- A convention with a text has an expression. -/
theorem exists_regex? {p : KeyPattern} {text : String} (written : p.regexText? = some text) :
    ∃ r, p.regex? = some r := by
  cases p <;> simp [regexText?] at written <;> exact ⟨_, rfl⟩

/-- The rule of a convention admits the keys that follow it. -/
theorem admits_convention_iff {p : KeyPattern} {text key : String}
    (written : p.regexText? = some text) :
    (KeyRule.mk ("^" ++ text ++ "$")).admits key = true ↔ p.holds key = true := by
  obtain ⟨r, expression⟩ := exists_regex? written
  obtain ⟨read, readable, same⟩ := expression_convention expression written
  have held : p.holds key = r.accepts key.toList := by simp only [holds, expression]
  rw [admits_of_expression readable, held, accepts, same, ← accepts, accepts_whole]

end KeyPattern
end SchemaInference
