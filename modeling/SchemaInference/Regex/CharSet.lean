import SchemaInference.Text.Blank
import SchemaInference.Text.Case
import SchemaInference.Text.Numeral
import SchemaInference.Text.Word

/-!
Sets of characters as expressions write them: single characters, spans, and classes, all of them or
all but them. Letter case may not count; then a set holds every character that differs from one of
its members in letter case only.
-/

namespace SchemaInference

/-- Whether letter case counts: always, not in ASCII letters, or not in any letters. -/
inductive Folding where
  | exact
  | ascii
  | full
  deriving DecidableEq, Repr

namespace Folding

/-- The code points that count as one with a character, itself among them. -/
def family (f : Folding) (c : Char) : List Nat :=
  match f with
  | .exact => [c.toNat]
  | .ascii => [c.toNat, c.toLower.toNat, c.toUpper.toNat]
  | .full => c.toNat :: Text.caseFamily c.toNat

/-- The code points that count as one with a character in a span up to `last`. A span that leaves
the basic plane knows the capitals of all letters. -/
def familyUpTo (last : Nat) (c : Char) : Folding → List Nat
  | .ascii =>
    family .ascii c ++ if 0xFFFF < last then Text.capitals c.toNat else []
  | f => family f c

/-- What a text that comes again is compared by, character by character. -/
def plain (f : Folding) (c : Char) : Nat :=
  match f with
  | .exact => c.toNat
  | .ascii => c.toLower.toNat
  | .full => Text.small c.toNat

end Folding

/-- A class of characters, in all scripts or in ASCII alone. -/
inductive CharClass where
  | digit
  | space
  | word
  deriving DecidableEq, Repr

namespace CharClass

/-- Whether a character belongs to a class. -/
def holds (k : CharClass) (ascii : Bool) (c : Char) : Bool :=
  (!ascii || c.toNat < 0x80) &&
    match k with
    | .digit => Text.isNumeral c
    | .space => if ascii then c == ' ' || ('\t' ≤ c && c ≤ '\r') else Text.isBlank c
    | .word => Text.isWord c

end CharClass

/-- An item of a set: a code point, a span of them, or a class or what is outside it. -/
inductive SetItem where
  | one (point : Nat)
  | span (first last : Nat)
  | inClass (k : CharClass) (negated ascii : Bool)
  deriving DecidableEq, Repr

namespace SetItem

/-- Whether an item holds a character. A single code point outside the basic plane is compared with
small letters only. -/
def holds (f : Folding) (c : Char) : SetItem → Bool
  | .one n => if 0xFFFF < n then f.plain c == n else (f.family c).contains n
  | .span first last =>
    (f.familyUpTo last c).any fun n => first ≤ n && n ≤ last
  | .inClass k negated ascii => k.holds ascii c != negated

end SetItem

/-- A set of characters. A negated one holds what its items do not. -/
structure CharSet where
  items : List SetItem
  negated : Bool := false
  folding : Folding := .exact
  deriving DecidableEq, Repr

namespace CharSet

/-- Whether a set holds a character. -/
def holds (s : CharSet) (c : Char) : Bool := s.items.any (·.holds s.folding c) != s.negated

/-- The set of one code point. -/
def point (n : Nat) (f : Folding) : CharSet := { items := [.span n n], folding := f }

/-- The set of one character. -/
def just (c : Char) : CharSet := point c.toNat .exact

/-- The set of the characters between two, both included. -/
def between (first last : Char) : CharSet := { items := [.span first.toNat last.toNat] }

/-- Every character. -/
def all : CharSet := { items := [], negated := true }

/-- Every character but a line feed. -/
def line : CharSet := { items := [.one 0x0A], negated := true }

/-- The set that is written between brackets. A single code point in it is no different from one
that stands without them. -/
def ofItems (items : List SetItem) (negated : Bool) (f : Folding) : CharSet :=
  match items.eraseDups with
  | [.one n] => { point n f with negated }
  | items => { items, negated, folding := f }

@[simp] theorem holds_just {c d : Char} : (just c).holds d = true ↔ d = c := by
  simp only [holds, just, point, List.any_cons, List.any_nil, SetItem.holds, Folding.familyUpTo,
    Folding.family, Bool.or_false, Bool.and_eq_true, decide_eq_true_eq, bne_iff_ne, ne_eq,
    Bool.not_eq_false]
  constructor
  · rintro ⟨above, below⟩
    exact Char.toNat_inj.1 (Nat.le_antisymm below above)
  · rintro rfl
    exact ⟨Nat.le_refl _, Nat.le_refl _⟩

end CharSet

end SchemaInference
