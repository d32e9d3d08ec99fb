import SchemaInference.Regex.Basic
import SchemaInference.Regex.Fault
import SchemaInference.Text.Identifier

/-!
Reading a text as an expression: the state of the reading, and the parts of a text that hold no
other expressions: escapes, sets between brackets, names, bounds and flags. A text is taken token by
token, and a backslash makes one token with the character after it.
-/

namespace SchemaInference

namespace Regex

/-- A flag changes how a text is read or what its parts match. -/
inductive Flag where
  | caseless
  | multiline
  | dotAll
  | spaced
  | ascii
  | unicode
  | locale
  | bare
  deriving DecidableEq, Repr

namespace Flag

/-- The flag with a letter. -/
def ofChar? : Char → Option Flag
  | 'i' => some .caseless
  | 'm' => some .multiline
  | 's' => some .dotAll
  | 'x' => some .spaced
  | 'a' => some .ascii
  | 'u' => some .unicode
  | 'L' => some .locale
  | 't' => some .bare
  | _ => none

/-- Whether a flag says which alphabet classes and letter case are of. At most one such flag is set
at once. -/
def isType (f : Flag) : Bool := f == .ascii || f == .unicode || f == .locale

/-- Whether a flag can only be set for an expression as a whole. -/
def isGlobal (f : Flag) : Bool := f == .bare

end Flag

/-- A token of a text. -/
inductive Token where
  | plain (c : Char)
  | escaped (c : Char)
  deriving DecidableEq, Repr

namespace Token

/-- The characters of a token. -/
def text : Token → List Char
  | .plain c => [c]
  | .escaped c => ['\\', c]

/-- How many characters a token has. -/
def size (t : Token) : Nat := t.text.length

end Token

/-- How far a text has been read. A backslash that ends the text is no token, and is not part of
what is `left`: it is a fault as soon as nothing else is. -/
structure Reading where
  left : List Char
  position : Nat := 0
  endsInBackslash : Bool := false
  flags : List Flag := []
  /-- The widths of the groups, the last group first; an open group has none. -/
  widths : List (Option Width) := []
  names : List (List Char × Nat) := []
  /-- The number of the first group that is not before the look-behind that is being read. -/
  look : Option Nat := none
  /-- The groups that conditions have asked for, and where they did. -/
  asked : List (Nat × Nat) := []

namespace Reading

/-- The next token. -/
def next? (r : Reading) : Option Token :=
  match r.left with
  | [] => none
  | '\\' :: c :: _ => some (.escaped c)
  | c :: _ => some (.plain c)

/-- Whether a flag is set. -/
def has (r : Reading) (f : Flag) : Bool := r.flags.contains f

/-- Whether letter case counts in what is read next. -/
def folding (r : Reading) : Folding :=
  if r.has .caseless then if r.has .ascii then .ascii else .full else .exact

/-- The width of a group that is closed. -/
def width? (r : Reading) (number : Nat) : Option Width := (r.widths.reverse[number - 1]?).join

/-- The width of a group, as far as it matters: an open group is not asked for. -/
def width (r : Reading) (number : Nat) : Width := (r.width? number).getD .zero

/-- The number that the next group gets. -/
def nextGroup (r : Reading) : Nat := r.widths.length + 1

/-- Gives a group its width, and so closes it. -/
def close (r : Reading) (number : Nat) (w : Width) : Reading :=
  { r with widths := r.widths.set (r.widths.length - number) (some w) }

end Reading

/-- A step of the reading of a text. -/
abbrev Read := StateT Reading (Except Fault)

namespace Read

/-- A fault at a place. -/
def faultAt {α : Type} (cause : Cause) (position : Nat) : Read α := throw ⟨cause, some position⟩

/-- A fault that shows some characters before the next one. -/
def fault {α : Type} (cause : Cause) (back : Nat) : Read α := do
  faultAt cause ((← get).position - back)

/-- Passes some characters. -/
def pass (count : Nat) : Read Unit := do
  let r ← get
  let next := { r with left := r.left.drop count, position := r.position + count }
  if next.left.isEmpty && r.endsInBackslash then faultAt .loneBackslash next.position
  else set next

/-- Takes a token. -/
def token? : Read (Option Token) := do
  match (← get).next? with
  | none => return none
  | some t => pass t.size; return some t

/-- Takes a character if it comes next. -/
def eat (c : Char) : Read Bool := do
  if (← get).next? == some (.plain c) then pass 1; return true
  else return false

/-- Takes digits, at most so many. -/
def digits (most : Nat) (isDigit : Char → Bool) : Read (List Char) := do
  let cs := ((← get).left.take most).takeWhile isDigit
  if cs.isEmpty then return []
  else pass cs.length; return cs

/-- The characters before the first token that is a closing character. -/
def before? (closing : Char) : List Char → Option (List Char)
  | [] => none
  | '\\' :: c :: rest => (before? closing rest).map fun cs => '\\' :: c :: cs
  | c :: rest => if c = closing then some [] else (before? closing rest).map (c :: ·)

/-- Takes a name and the character that closes it. -/
def name (closing : Char) (what : String) : Read (List Char) := do
  let left := (← get).left
  match before? closing left with
  | some [] => pass 1; fault (.missingName what) 1
  | some cs => pass (cs.length + 1); return cs
  | none =>
    if left.isEmpty then fault (.missingName what) 0
    else pass left.length; fault (.openName closing) left.length

/-- Passes everything up to a closing character, and that character. -/
def skip (closing : Char) : Read Bool := do
  let left := (← get).left
  match before? closing left with
  | some cs => pass (cs.length + 1); return true
  | none =>
    if left.isEmpty then return false
    else pass left.length; return false

end Read

/-- The value of a digit up to fifteen. -/
def digitValue (c : Char) : Nat :=
  if c.isDigit then c.toNat - '0'.toNat else c.toLower.toNat - 'a'.toNat + 10

/-- The number that digits write. -/
def valueOf (base : Nat) (cs : List Char) : Nat := cs.foldl (fun n c => base * n + digitValue c) 0

/-- Whether a character is an octal digit. -/
def isOctal (c : Char) : Bool := '0' ≤ c && c ≤ '7'

/-- Whether a character is a hexadecimal digit. -/
def isHex (c : Char) : Bool := c.isDigit || ('a' ≤ c && c ≤ 'f') || ('A' ≤ c && c ≤ 'F')

namespace Read

/-- A code point in a number of hexadecimal digits. -/
def hexEscape (letter : Char) (count : Nat) : Read SetItem := do
  let cs ← digits count isHex
  let escape := '\\' :: letter :: cs
  if cs.length < count then fault (.cutEscape escape) escape.length
  else if 0x10FFFF < valueOf 16 cs then fault (.unknownEscape escape) escape.length
  else return .one (valueOf 16 cs)

/-- A code point in octal digits, the first of which has been taken. -/
def octalEscape (cs : List Char) : Read SetItem := do
  let escape := '\\' :: cs
  if 0xFF < valueOf 8 cs then fault (.largeOctal escape) escape.length
  else return .one (valueOf 8 cs)

/-- A code point by its name between braces. The table of names is left out; so none is known, and
an expression with a name in it counts as one that cannot be read. -/
def namedEscape : Read SetItem := do
  if ← eat '\x7b' then
    let cs ← name '\x7d' "character name"
    fault (.unknownCharacter cs) (cs.length + 4)
  else fault .unbracedName 0

/-- The control character with a letter. -/
def control? : Char → Option Nat
  | 'a' => some 0x07
  | 't' => some 0x09
  | 'n' => some 0x0A
  | 'v' => some 0x0B
  | 'f' => some 0x0C
  | 'r' => some 0x0D
  | _ => none

/-- The class with a letter, and whether the letter means what is outside it. -/
def class? : Char → Option (CharClass × Bool)
  | 'd' => some (.digit, false)
  | 'D' => some (.digit, true)
  | 's' => some (.space, false)
  | 'S' => some (.space, true)
  | 'w' => some (.word, false)
  | 'W' => some (.word, true)
  | _ => none

/-- What a character that is no digit stands for after a backslash, within a set or without. -/
def itemEscape (c : Char) : Read SetItem := do
  match control? c, class? c with
  | some n, _ => return .one n
  | none, some (k, negated) => return .inClass k negated ((← get).has .ascii)
  | none, none =>
    if c = 'x' then hexEscape c 2
    else if c = 'u' then hexEscape c 4
    else if c = 'U' then hexEscape c 8
    else if c = 'N' then namedEscape
    else if c.isAlpha then fault (.unknownEscape ['\\', c]) 2
    else return .one c.toNat

/-- What a character stands for after a backslash within a set. -/
def setEscape (c : Char) : Read SetItem := do
  if c = 'b' then return .one 0x08
  else if isOctal c then octalEscape (c :: (← digits 2 isOctal))
  else if c.isDigit then fault (.unknownEscape ['\\', c]) 2
  else itemEscape c

/-- What a token stands for within a set. -/
def setItem : Token → Read SetItem
  | .plain c => return .one c.toNat
  | .escaped c => setEscape c

/-- The items of a set whose bracket stands `here`, after those `done`, the last of which is first.
A bracket that comes first does not close the set, and a dash joins two items unless it is last.
Each step takes a token, so there are no more steps than characters. -/
def setItems (here : Nat) : (steps : Nat) → (done : List SetItem) → Read (List SetItem)
  | 0, _ => faultAt .openSet here
  | steps + 1, done => do
    match ← token? with
    | none => faultAt .openSet here
    | some t =>
      if t = .plain ']' ∧ done ≠ [] then return done.reverse
      let first ← setItem t
      if ← eat '-' then
        match ← token? with
        | none => faultAt .openSet here
        | some u =>
          if u = .plain ']' then return (.one '-'.toNat :: first :: done).reverse
          let last ← setItem u
          match first, last with
          | .one m, .one n =>
            if m ≤ n then setItems here steps (.span m n :: done)
            else fault (.badSpan t.text u.text) (t.size + 1 + u.size)
          | _, _ => fault (.badSpan t.text u.text) (t.size + 1 + u.size)
      else setItems here steps (first :: done)

/-- A set whose opening bracket has been taken. -/
def charSet : Read CharSet := do
  let here := (← get).position - 1
  let negated ← eat '^'
  let items ← setItems here ((← get).left.length + 1) []
  return .ofItems items negated (← get).folding

/-- Refuses a group within a look-behind unless it was closed before that. -/
def checkLook (number : Nat) : Read Unit := do
  let r ← get
  match r.look with
  | none => return
  | some least =>
    if (r.width? number).isNone then fault .openGroup 0
    else if least ≤ number then fault .groupOfSameLook 0

/-- A group once more, by a number of one or two digits, the first of which has been taken; or a
code point, if there are three octal digits. -/
def reference (c : Char) : Read Regex := do
  let second ← digits 1 Char.isDigit
  let third ← if second ≠ [] ∧ (c :: second).all isOctal then digits 1 isOctal else pure []
  let cs := c :: second ++ third
  if third ≠ [] then
    return .one (.ofItems [← octalEscape cs] false (← get).folding)
  let number := valueOf 10 cs
  let r ← get
  if r.nextGroup ≤ number then fault (.noGroup number) cs.length
  else if (r.width? number).isNone then fault .openGroup (cs.length + 1)
  else
    checkLook number
    return .again number r.folding

/-- The anchor with a letter. -/
def anchor? (ascii : Bool) : Char → Option Anchor
  | 'A' => some .textStart
  | 'Z' => some .veryEnd
  | 'b' => some (.wordEdge false ascii)
  | 'B' => some (.wordEdge true ascii)
  | _ => none

/-- What a character stands for after a backslash without a set. -/
def escape (c : Char) : Read Regex := do
  match anchor? ((← get).has .ascii) c with
  | some a => return .anchor a
  | none =>
    if c ≠ '0' ∧ c.isDigit then reference c
    else
      let item ← if c = '0' then octalEscape (c :: (← digits 2 isOctal)) else itemEscape c
      return .one (.ofItems [item] false (← get).folding)

/-- A bound that no repetition reaches. -/
def tooMany : Nat := 0xFFFFFFFF

/-- The bounds of a repetition after its opening brace, if the braces hold any: two numbers or one,
and either of the two may be missing. Otherwise the brace stands for itself. -/
def bounds? : Read (Option (Nat × Option Nat)) := do
  let start ← get
  if start.next? = some (.plain '\x7d') then return none
  let least ← digits start.left.length Char.isDigit
  let most ← if ← eat ',' then digits start.left.length Char.isDigit else pure least
  if !(← eat '\x7d') then
    set start
    return none
  else if tooMany ≤ valueOf 10 least ∨ tooMany ≤ valueOf 10 most then throw ⟨.hugeBound, none⟩
  else if most = [] then return some (valueOf 10 least, none)
  else if valueOf 10 most < valueOf 10 least then faultAt .crossedBounds start.position
  else return some (valueOf 10 least, some (valueOf 10 most))

/-- The bounds of the repetition that a character stands for. -/
def repetition? : Char → Read (Option (Nat × Option Nat))
  | '*' => return some (0, none)
  | '+' => return some (1, none)
  | '?' => return some (0, some 1)
  | _ => bounds?

/-- How a repetition goes about it: a mark after it says so. -/
def greed : Read Greed := do
  if ← eat '?' then return .fewest
  else if ← eat '+' then return .keeping
  else return .most

/-- The fault of a token where a flag should be: that there is no such flag, or another cause. -/
def noFlag {α : Type} (otherwise : Cause) : Token → Read α
  | .plain c =>
    fault (if Text.startsIdentifier c && c != '_' then .unknownFlag else otherwise) 1
  | .escaped _ => fault otherwise 2

/-- Flags that are set, after those `done`, up to the character that ends them. -/
def flagsOn : (steps : Nat) → Flag → (done : List Flag) → Read (List Flag × Char)
  | 0, _, _ => fault .openFlags 0
  | steps + 1, f, done => do
    if f = .locale then fault .localeFlag 0
    else if f.isType && done.any fun g => g.isType && g != f then fault .clashingFlags 0
    else
      match ← token? with
      | none => fault .openFlags 0
      | some (.escaped c) => noFlag .openFlags (.escaped c)
      | some (.plain c) =>
        if [')', '-', ':'].contains c then return (f :: done, c)
        match Flag.ofChar? c with
        | some g => flagsOn steps g (f :: done)
        | none => noFlag .openFlags (.plain c)

/-- Flags that are taken back, after those `done`, up to the colon that ends them. At first there
must be one. -/
def flagsOff : (steps : Nat) → (done : List Flag) → Read (List Flag)
  | 0, _ => fault .openFlagsOff 0
  | steps + 1, done => do
    let otherwise : Cause := if done = [] then .missingFlag else .openFlagsOff
    match ← token? with
    | none => fault otherwise 0
    | some (.escaped c) => noFlag otherwise (.escaped c)
    | some (.plain c) =>
      if c = ':' ∧ done ≠ [] then return done
      match Flag.ofChar? c with
      | some f => if f.isType then fault .typeFlagOff 0 else flagsOff steps (f :: done)
      | none => noFlag otherwise (.plain c)

/-- Sets some flags and takes others back. A flag that says which alphabet is meant takes the place
of another one. -/
def setFlags (on off : List Flag) : Read Unit :=
  modify fun r =>
    let kept := if on.any Flag.isType then r.flags.filter (!·.isType) else r.flags
    { r with flags := (on ++ kept).filter (!off.contains ·) }

/-- Flags whose first character has been taken. They hold for the rest of the text, or for what
follows a colon; this says whether they hold for the rest. -/
def flags (first : Char) : Read Bool := do
  let steps := (← get).left.length + 1
  let (on, closing) ←
    match Flag.ofChar? first with
    | some f => flagsOn steps f []
    | none => pure ([], first)
  if closing = ')' then
    modify fun r => { r with flags := on ++ r.flags }
    return true
  else if on.any Flag.isGlobal then fault .globalFlagOn 1
  else
    let off ← if closing = '-' then flagsOff steps [] else pure []
    if off.any Flag.isGlobal then fault .globalFlagOff 1
    else if on.any off.contains then fault .flagOnAndOff 1
    else
      setFlags on off
      return false

end Read

end Regex

end SchemaInference
