import SchemaInference.Regex.CharSet

/-!
Regular expressions: sets of characters, anchors, repetitions that take much or little, groups that
are remembered and may have to come again, and looks ahead and behind.
-/

namespace SchemaInference

/-- A condition on a place in a text: its two ends, the ends of its lines, and the edges of
words. -/
inductive Anchor where
  | textStart
  | lineStart
  /-- The end of the text, or the place before a line feed that ends it. -/
  | textEnd
  | lineEnd
  | veryEnd
  | wordEdge (inside ascii : Bool)
  deriving DecidableEq, Repr

/-- How a repetition goes about it: as often as it can, as seldom as it can, or as often as it can
without giving anything back. -/
inductive Greed where
  | most
  | fewest
  | keeping
  deriving DecidableEq, Repr

/-- How many characters an expression takes. Without `most` there is no bound. -/
structure Width where
  least : Nat
  most : Option Nat
  deriving DecidableEq, Repr

namespace Width

/-- The width of nothing. -/
def zero : Width := ⟨0, some 0⟩

/-- The width of one thing after another. -/
def add (a b : Width) : Width :=
  ⟨a.least + b.least, match a.most, b.most with
    | some m, some n => some (m + n)
    | _, _ => none⟩

/-- The width of one of two things. -/
def either (a b : Width) : Width :=
  ⟨min a.least b.least, match a.most, b.most with
    | some m, some n => some (max m n)
    | _, _ => none⟩

/-- The width of a thing that comes from `least` to `most` times. -/
def times (w : Width) (least : Nat) (most : Option Nat) : Width :=
  ⟨least * w.least, match w.most, most with
    | some 0, _ | _, some 0 => some 0
    | some m, some n => some (n * m)
    | _, _ => none⟩

/-- Whether a thing always takes the same number of characters. -/
def isFixed (w : Width) : Bool := w.most == some w.least

end Width

/-- A regular expression. Groups are numbered from one on. -/
inductive Regex where
  | blank
  | one (set : CharSet)
  | anchor (a : Anchor)
  | seq (first second : Regex)
  | alt (left right : Regex)
  | repeated (greed : Greed) (least : Nat) (most : Option Nat) (body : Regex)
  | group (number : Nat) (body : Regex)
  /-- The text of a group once more. -/
  | again (number : Nat) (folding : Folding)
  /-- One expression if a group has a text, another if it has none. -/
  | whether (number : Nat) (yes no : Regex)
  | ahead (negated : Bool) (body : Regex)
  /-- A look at the characters before a place, as many as the body takes. -/
  | behind (negated : Bool) (width : Width) (body : Regex)
  /-- The first match of the body and no other. -/
  | keeping (body : Regex)
  deriving DecidableEq, Repr

namespace Regex

/-- A single character. -/
def char (c : Char) : Regex := .one (.just c)

/-- One or more of an expression. -/
def plus (r : Regex) : Regex := .repeated .most 1 none r

/-- Any number of an expression. -/
def star (r : Regex) : Regex := .repeated .most 0 none r

/-- An expression or nothing. -/
def opt (r : Regex) : Regex := .repeated .most 0 (some 1) r

/-- One expression after another. -/
def sequence : List Regex → Regex
  | [] => .blank
  | [r] => r
  | r :: rest => .seq r (sequence rest)

/-- An expression between anchors at both ends of the text. -/
def whole (r : Regex) : Regex := .seq (.anchor .textStart) (.seq r (.anchor .textEnd))

/-- The width of an expression, given those of the groups. -/
def width (groups : Nat → Width) : Regex → Width
  | .blank | .anchor _ | .ahead .. | .behind .. => .zero
  | .one _ => ⟨1, some 1⟩
  | .seq r s => (r.width groups).add (s.width groups)
  | .alt r s => (r.width groups).either (s.width groups)
  | .repeated _ least most r => (r.width groups).times least most
  | .group _ r | .keeping r => r.width groups
  | .again n _ => groups n
  | .whether _ r s => (r.width groups).either (s.width groups)

end Regex

end SchemaInference
