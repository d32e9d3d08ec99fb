import SchemaInference.Regex.Reading
import SchemaInference.Text.Numeral

/-!
The reader of expressions: alternatives of pieces, and what parentheses enclose. A text is read to
its end or not at all, and a text that is no expression has a fault. Whether what looks behind has a
fixed width is asked last.
-/

namespace SchemaInference

namespace Regex

/-- What a pair of parentheses makes of the expression between them. -/
inductive Bracket where
  | plain
  | group (number : Nat)
  | keeping
  | ahead (negated : Bool)
  | behind (negated : Bool)
  deriving DecidableEq, Repr

/-- What an opening parenthesis begins. -/
inductive Opening where
  /-- Something that stands for nothing: a comment. -/
  | comment
  /-- Flags for the whole expression. -/
  | flags
  | piece (r : Regex)
  | bracket (b : Bracket)
  | condition (number : Nat)
  deriving DecidableEq, Repr

/-- What a repetition finds before it. An anchor counts as nothing. -/
inductive Repeatable where
  | nothing
  | repetition
  | piece
  deriving DecidableEq, Repr

namespace Repeatable

/-- What a repetition makes of a piece. -/
def ofPiece : Regex → Repeatable
  | .anchor _ => .nothing
  | _ => .piece

end Repeatable

namespace Read

/-- Opens the next group. -/
def openGroup (name : Option (List Char)) : Read Bracket := do
  let r ← get
  let number := r.nextGroup
  match name with
  | none =>
    set { r with widths := none :: r.widths }
    return .group number
  | some cs =>
    match r.names.lookup cs with
    | some earlier => fault (.takenName cs number earlier) (cs.length + 1)
    | none =>
      set { r with widths := none :: r.widths, names := (cs, number) :: r.names }
      return .group number

/-- The name of a group, up to the character that closes it. -/
def groupName (closing : Char) : Read (List Char) := do
  let cs ← name closing "group name"
  if Text.isIdentifier cs then return cs
  else fault (.badName cs) (cs.length + 1)

/-- The number of a group with a name that has just been taken. -/
def groupNumber (cs : List Char) : Read Nat := do
  match (← get).names.lookup cs with
  | some number => return number
  | none => fault (.unknownName cs) (cs.length + 1)

/-- What begins with a name: a group, or a group once more. -/
def named : Read Opening := do
  if ← eat '<' then
    return .bracket (← openGroup (some (← groupName '>')))
  else if ← eat '=' then
    let cs ← groupName ')'
    let number ← groupNumber cs
    let r ← get
    if (r.width? number).isNone then fault .openGroup (cs.length + 1)
    else
      checkLook number
      return .piece (.again number r.folding)
  else
    match ← token? with
    | none => fault .cutGroup 0
    | some t => fault (.unknownExtension ('P' :: t.text)) (t.size + 2)

/-- A group that a condition asks for by name or by number. A group that comes later may be asked
for by its number. -/
def condition : Read Opening := do
  let cs ← name ')' "group name"
  let back := cs.length + 1
  let number ←
    if Text.isIdentifier cs then groupNumber cs
    else
      match Text.wholeOfText? (String.ofList cs) with
      | none | some (.negSucc _) => fault (.badName cs) back
      | some (.ofNat number) =>
        if number = 0 then fault .groupZero back
        else if 0x3FFFFFFF ≤ number then fault (.noGroup number) back
        else
          modify fun r => { r with asked := r.asked ++ [(number, r.position - back)] }
          pure number
  checkLook number
  return .condition number

/-- A look behind, after its first two characters. -/
def behind : Read Opening := do
  match ← token? with
  | none => fault .cutGroup 0
  | some (.plain '=') => return .bracket (.behind false)
  | some (.plain '!') => return .bracket (.behind true)
  | some t => fault (.unknownExtension ('<' :: t.text)) (t.size + 2)

/-- What a parenthesis begins that stands `here` and has been taken. -/
def opening (here : Nat) : Read Opening := do
  if !(← eat '?') then return .bracket (← openGroup none)
  match ← token? with
  | none => fault .cutGroup 0
  | some (.escaped c) => fault (.unknownExtension ['\\', c]) 3
  | some (.plain c) =>
    match c with
    | ':' => return .bracket .plain
    | '>' => return .bracket .keeping
    | '=' => return .bracket (.ahead false)
    | '!' => return .bracket (.ahead true)
    | '<' => behind
    | 'P' => named
    | '(' => condition
    | '#' => if ← skip ')' then return .comment else faultAt .openComment here
    | c =>
      if c = '-' ∨ (Flag.ofChar? c).isSome then
        if ← flags c then return .flags else return .bracket .plain
      else fault (.unknownExtension [c]) 2

/-- Closes a pair of parentheses. -/
def close (r : Regex) : Bracket → Read Regex
  | .plain => return r
  | .keeping => return .keeping r
  | .ahead negated => return .ahead negated r
  | .behind negated => return .behind negated (r.width (← get).width) r
  | .group number => do
    modify fun s => s.close number (r.width s.width)
    return .group number r

/-- Begins what a pair of parentheses encloses. -/
def enter : Bracket → Read Unit
  | .behind _ => modify fun r => { r with look := r.look <|> some r.nextGroup }
  | _ => return

/-- A piece that a single character stands for or begins. -/
def piece (c : Char) : Read Regex := do
  let r ← get
  match c with
  | '[' => return .one (← charSet)
  | '.' => return .one (if r.has .dotAll then .all else .line)
  | '^' => return .anchor (if r.has .multiline then .lineStart else .textStart)
  | '$' => return .anchor (if r.has .multiline then .lineEnd else .textEnd)
  | c => return .one (.point c.toNat r.folding)

/-- Repeats the last of some pieces, which is the first of the list. The mark of the repetition
stands at `position`. -/
def repeatLast (position least : Nat) (most : Option Nat) (done : List Regex)
    (last : Repeatable) : Read (List Regex) := do
  match last, done with
  | .repetition, _ => faultAt .repeatedTwice position
  | .piece, r :: rest => return .repeated (← greed) least most r :: rest
  | _, _ => faultAt .nothingRepeated position

/-- Expects the parenthesis that closes the one `here`. -/
def expectClosing (here : Nat) : Read Unit := do
  if !(← eat ')') then faultAt .unclosedGroup here

/-- Whether a character is a mark of repetition. -/
def repeats (c : Char) : Bool := ['*', '+', '?', '\x7b'].contains c

mutual

/-- Alternatives up to the end or to a parenthesis that closes them. `first` says that nothing of
the text comes before them. The steps bound how deep parentheses go and how long pieces follow each
other; there are fewer of both than three for every character. -/
def alternatives : (steps : Nat) → (first : Bool) → Read Regex
  | 0, _ => fault .cutGroup 0
  | steps + 1, first => do
    let r ← pieces steps first [] .nothing
    if ← eat '|' then return .alt r (← alternatives steps false)
    else return r

/-- The pieces of one alternative after those `done`, the last of which is first. -/
def pieces : (steps : Nat) → (first : Bool) → (done : List Regex) → (last : Repeatable) → Read Regex
  | 0, _, _, _ => fault .cutGroup 0
  | steps + 1, first, done, last => do
    let here := (← get).position
    match (← get).next? with
    | none | some (.plain '|') | some (.plain ')') => return sequence done.reverse
    | some (.escaped c) =>
      pass 2
      let r ← escape c
      pieces steps first (r :: done) (.ofPiece r)
    | some (.plain c) =>
      pass 1
      if (← get).has .spaced && CharClass.space.holds true c then pieces steps first done last
      else if (← get).has .spaced && c == '#' then
        let _ ← skip '\n'
        pieces steps first done last
      else if c = '(' then
        let flags := (← get).flags
        match ← opening here with
        | .comment => pieces steps first done last
        | .flags =>
          if first && done.isEmpty then pieces steps first done last else faultAt .lateFlags here
        | .piece r => pieces steps first (r :: done) .piece
        | .bracket b =>
          let r ← bracket steps here flags b
          pieces steps first (r :: done) .piece
        | .condition number =>
          let r ← branches steps here number
          pieces steps first (r :: done) .piece
      else if repeats c then
        match ← repetition? c with
        | some (least, most) =>
          pieces steps first (← repeatLast here least most done last) .repetition
        | none => pieces steps first ((← piece c) :: done) .piece
      else
        let r ← piece c
        pieces steps first (r :: done) (.ofPiece r)

/-- What the parenthesis `here` encloses, and the flags that hold again after it. -/
def bracket : (steps : Nat) → (here : Nat) → (flags : List Flag) → Bracket → Read Regex
  | 0, _, _, _ => fault .cutGroup 0
  | steps + 1, here, flags, b => do
    let look := (← get).look
    enter b
    let r ← alternatives steps false
    modify fun s => { s with look, flags }
    expectClosing here
    close r b

/-- The one or two alternatives of the condition whose parenthesis stands `here`. -/
def branches : (steps : Nat) → (here : Nat) → (number : Nat) → Read Regex
  | 0, _, _ => fault .cutGroup 0
  | steps + 1, here, number => do
    let yes ← pieces steps false [] .nothing
    if ← eat '|' then
      let no ← pieces steps false [] .nothing
      if (← get).next? = some (.plain '|') then fault .thirdBranch 0
      expectClosing here
      return .whether number yes no
    else
      expectClosing here
      return .whether number yes .blank

end

end Read

/-- The fault of an expression that has been read, at the first of its parts that has one: a
repetition where there may be none, or a look behind without a fixed width or with one that no text
has. -/
def flaw? (bare : Bool) : Regex → Option Cause
  | .blank | .one _ | .anchor _ | .again .. => none
  | .seq r s | .alt r s | .whether _ r s => r.flaw? bare <|> s.flaw? bare
  | .repeated greed _ _ r => if bare then some (.bareRepetition greed) else r.flaw? bare
  | .group _ r | .ahead _ r | .keeping r => r.flaw? bare
  | .behind _ w r =>
    if 0xFFFFFFFF < w.least then some .farLook
    else if !w.isFixed then some .looseLook
    else r.flaw? bare

namespace Read

/-- A text as a whole. -/
def whole : Read Regex := do
  let start ← get
  if start.left.isEmpty && start.endsInBackslash then faultAt .loneBackslash 0
  let r ← alternatives (3 * start.left.length + 3) true
  let done ← get
  if done.has .ascii && done.has .unicode then throw ⟨.clashingAlphabets, none⟩
  if !done.left.isEmpty then fault .unopenedGroup 0
  match done.asked.find? fun (number, _) => done.nextGroup ≤ number with
  | some (number, position) => faultAt (.noGroup number) position
  | none =>
    match r.flaw? (done.has .bare) with
    | some cause => throw ⟨cause, none⟩
    | none => return r

end Read

/-- Whether a text ends in a backslash that does not belong to another one. -/
def endsInBackslash (cs : List Char) : Bool :=
  (cs.reverse.takeWhile (· == '\\')).length % 2 == 1

/-- Reads a text as an expression. -/
def ofText (s : String) : Except Fault Regex :=
  let cs := s.toList
  let lone := endsInBackslash cs
  Read.whole.run' { left := if lone then cs.dropLast else cs, endsInBackslash := lone }

end Regex

end SchemaInference
