import SchemaInference.Config
import SchemaInference.Tag

/-!
When texts read as the values of an enumeration: there are enough distinct ones, all are words of
one casing, and their lengths are close together.
-/

namespace SchemaInference

/-- How a word is written. -/
inductive Casing where
  | lower
  | upper
  | capitalized
  deriving DecidableEq, Repr

namespace Casing

/-- The casings, each of which a word of several letters can have alone. -/
def all : List Casing := [.lower, .upper, .capitalized]

/-- A small letter of the Latin alphabet. -/
def isLower (c : Char) : Bool := 'a' ≤ c && c ≤ 'z'

/-- A capital letter of the Latin alphabet. -/
def isUpper (c : Char) : Bool := 'A' ≤ c && c ≤ 'Z'

/-- Whether characters are a word of this casing. A capitalized word has letters after its first. -/
def holds : Casing → List Char → Bool
  | .lower, cs => !cs.isEmpty && cs.all isLower
  | .upper, cs => !cs.isEmpty && cs.all isUpper
  | .capitalized, [] => false
  | .capitalized, c :: rest => isUpper c && !rest.isEmpty && rest.all isLower

end Casing

/-- Whether texts have one casing. -/
def ofOneCasing (texts : List String) : Bool :=
  Casing.all.any fun casing => texts.all fun s => casing.holds s.toList

/-- The difference between the greatest and the least length of texts. -/
def lengthSpread (texts : List String) : Nat :=
  let lengths := texts.map String.length
  lengths.foldl max 0 - lengths.foldl min (lengths.headD 0)

/-- The distinct values of an enumeration in ascending order, if the texts read as one. -/
def enumOf? (c : Config) (texts : List String) : Option (List String) :=
  let values := ascending texts
  if c.enumMinValues ≤ values.length && ofOneCasing values
      && lengthSpread values ≤ c.enumMaxLengthSpread then some values
  else none

theorem enumOf?_eq_some_iff {c : Config} {texts values : List String} :
    enumOf? c texts = some values ↔ values = ascending texts ∧ c.enumMinValues ≤ values.length ∧
      ofOneCasing values = true ∧ lengthSpread values ≤ c.enumMaxLengthSpread := by
  simp only [enumOf?, Option.ite_none_right_eq_some, Option.some.injEq, Bool.and_eq_true,
    decide_eq_true_eq, and_assoc]
  constructor
  · rintro ⟨enough, casing, spread, rfl⟩
    exact ⟨rfl, enough, casing, spread⟩
  · rintro ⟨rfl, enough, casing, spread⟩
    exact ⟨enough, casing, spread, rfl⟩

end SchemaInference
