import SchemaInference.Regex.Basic

/-!
Matching by trial. An expression is run at a place with a continuation, which says whether the rest
of the match succeeds; if it does not, the next possibility is tried. The first success counts, so
the order of the possibilities decides what groups hold.
-/

namespace SchemaInference

/-- A place in a text, with where the groups have begun and ended on the way there. The characters
before it are held from the last to the first. -/
structure Place where
  before : List Char
  after : List Char
  starts : List (Nat × Nat) := []
  ends : List (Nat × Nat) := []
  deriving DecidableEq, Repr

namespace Place

/-- The place before the first character of a text. -/
def start (cs : List Char) : Place := { before := [], after := cs }

/-- How many characters stand before a place. -/
def passed (p : Place) : Nat := p.before.length

/-- The text of a group. A group that has begun again and not yet ended has its new start and its
old end, and no text if the end comes first. -/
def group? (p : Place) (number : Nat) : Option (List Char) :=
  match p.starts.lookup number, p.ends.lookup number with
  | some first, some last =>
    if first ≤ last then some (((p.before.reverse ++ p.after).take last).drop first) else none
  | _, _ => none

/-- A group begins here. -/
def opening (p : Place) (number : Nat) : Place :=
  { p with starts := (number, p.passed) :: p.starts }

/-- A group ends here. -/
def closing (p : Place) (number : Nat) : Place := { p with ends := (number, p.passed) :: p.ends }

/-- A place with the groups of another one. -/
def withGroups (p q : Place) : Place := { p with starts := q.starts, ends := q.ends }

/-- Passes a text that is the same as `cs`, letter case apart. -/
def pass? (f : Folding) (p : Place) : List Char → Option Place
  | [] => some p
  | c :: cs =>
    match p.after with
    | [] => none
    | d :: rest =>
      if f.plain c = f.plain d then pass? f { p with before := d :: p.before, after := rest } cs
      else none

/-- The place `width` characters before this one. -/
def back? (p : Place) (width : Nat) : Option Place :=
  if p.before.length < width then none
  else
    some { p with before := p.before.drop width,
                  after := (p.before.take width).reverse ++ p.after }

end Place

namespace Anchor

/-- Whether an anchor holds between these characters. No edge of a word is in an empty text, and no
place without one either. -/
def holds (a : Anchor) (before after : List Char) : Bool :=
  match a with
  | .textStart => before.isEmpty
  | .lineStart => before.isEmpty || before.head? == some '\n'
  | .textEnd => after.isEmpty || after == ['\n']
  | .lineEnd => after.isEmpty || after.head? == some '\n'
  | .veryEnd => after.isEmpty
  | .wordEdge inside ascii =>
    let word (c : Option Char) : Bool := c.any (CharClass.word.holds ascii)
    !(before.isEmpty && after.isEmpty)
      && (word before.head? != word after.head?) != inside

end Anchor

/-- What is left to do after a part of a match. -/
abbrev Continuation := Place → Option Place

namespace Repetition

/-- A body exactly `count` times, and then `next`. -/
def exactly (body : Continuation → Continuation) (next : Continuation) :
    (count : Nat) → Continuation
  | 0, p => next p
  | count + 1, p => body (fun q => exactly body next count q) p

/-- Whether a body may be tried again: there is `room`, and something has been taken since the last
time. -/
def mayGoOn (room : Option Nat) (last : Option Nat) (p : Place) : Bool :=
  room != some 0 && last != some p.after.length

/-- A body as often as possible, and then `next`; each time is given back in turn if `next` fails.
`last` is how much was left when the body was last begun, and `tries` bounds how often. -/
def most (body : Continuation → Continuation) (next : Continuation) :
    (tries : Nat) → (room last : Option Nat) → Continuation
  | 0, _, _, p => next p
  | tries + 1, room, last, p =>
    if mayGoOn room last p then
      match body (most body next tries (room.map (· - 1)) (some p.after.length)) p with
      | some q => some q
      | none => next p
    else next p

/-- A body as seldom as possible, and then `next`. -/
def fewest (body : Continuation → Continuation) (next : Continuation) :
    (tries : Nat) → (room last : Option Nat) → Continuation
  | 0, _, _, p => next p
  | tries + 1, room, last, p =>
    match next p with
    | some q => some q
    | none =>
      if mayGoOn room last p then
        body (fewest body next tries (room.map (· - 1)) (some p.after.length)) p
      else none

end Repetition

namespace Regex

/-- The first match of an expression at a place after which `next` succeeds. -/
def run : Regex → Continuation → Continuation
  | .blank, next, p => next p
  | .one set, next, p =>
    match p.after with
    | [] => none
    | c :: rest =>
      if set.holds c then next { p with before := c :: p.before, after := rest } else none
  | .anchor a, next, p => if a.holds p.before p.after then next p else none
  | .seq r s, next, p => r.run (fun q => s.run next q) p
  | .alt r s, next, p =>
    match r.run next p with
    | some q => some q
    | none => s.run next p
  | .repeated greed least most r, next, p =>
    let body := fun next p => r.run next p
    let room := most.map (· - least)
    match greed with
    | .most =>
      Repetition.exactly body
        (fun q => Repetition.most body next (q.after.length + 1) room none q) least p
    | .fewest =>
      Repetition.exactly body
        (fun q => Repetition.fewest body next (q.after.length + 1) room none q) least p
    | .keeping =>
      let kept := fun next p => (r.run some p).bind next
      (Repetition.exactly kept
        (fun q => Repetition.most kept some (q.after.length + 1) room none q) least p).bind next
  | .group number r, next, p => r.run (fun q => next (q.closing number)) (p.opening number)
  | .again number folding, next, p =>
    ((p.group? number).bind (p.pass? folding)).bind next
  | .whether number r s, next, p =>
    if (p.group? number).isSome then r.run next p else s.run next p
  | .ahead negated r, next, p =>
    match r.run some p with
    | some q => if negated then none else next (p.withGroups q)
    | none => if negated then next p else none
  | .behind negated width r, next, p =>
    match (p.back? width.least).bind fun q => r.run some q with
    | some q => if negated then none else next (p.withGroups q)
    | none => if negated then next p else none
  | .keeping r, next, p => (r.run some p).bind next

/-- Whether a text is matched as a whole. -/
def accepts (r : Regex) (cs : List Char) : Bool :=
  (r.run (fun p => if p.after.isEmpty then some p else none) (.start cs)).isSome

/-- Whether a match begins at some place from here on. -/
def foundFrom (r : Regex) (before : List Char) : List Char → Bool
  | [] => (r.run some ⟨before, [], [], []⟩).isSome
  | c :: rest => (r.run some ⟨before, c :: rest, [], []⟩).isSome || r.foundFrom (c :: before) rest

/-- Whether a match is found anywhere in a text. -/
def found (r : Regex) (cs : List Char) : Bool := r.foundFrom [] cs

end Regex

end SchemaInference
