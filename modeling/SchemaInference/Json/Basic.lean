import SchemaInference.Number
import SchemaInference.Assoc

/-!
JSON values. Members of an object keep their order, whole numbers are exact, and all other numbers
are of the binary64 format.
-/

namespace SchemaInference

/-- A JSON value. -/
inductive Json where
  | null
  | bool (b : Bool)
  | int (n : Int)
  | real (x : Binary64)
  | str (s : String)
  | arr (items : List Json)
  | obj (members : List (String × Json))
  deriving Inhabited

namespace Json

/-- The member of an object with a name. -/
def member? (name : String) : Json → Option Json
  | .obj members => Assoc.find? name members
  | _ => none

/-- The text that a value is. -/
def str? : Json → Option String
  | .str s => some s
  | _ => none

/-- A list of texts. -/
def strings (texts : List String) : Json := .arr (texts.map .str)

/-- What stands for a value that may be missing. -/
def orNull : Option Json → Json
  | some j => j
  | none => .null

mutual

/-- How many lists and objects a value has in each other, itself included. -/
def height : Json → Nat
  | .arr items => 1 + itemHeight items
  | .obj members => 1 + memberHeight members
  | _ => 0

def itemHeight : List Json → Nat
  | [] => 0
  | j :: rest => max j.height (itemHeight rest)

def memberHeight : List (String × Json) → Nat
  | [] => 0
  | (_, j) :: rest => max j.height (memberHeight rest)

end

theorem sizeOf_find?_lt {name : String} {members : List (String × Json)} {j : Json}
    (found : Assoc.find? name members = some j) : sizeOf j < sizeOf members := by
  induction members with
  | nil => simp at found
  | cons pair rest ih =>
    obtain ⟨name', j'⟩ := pair
    rw [Assoc.find?_cons] at found
    split at found
    · cases found; simp +arith
    · have := ih found; simp +arith; omega

end Json

end SchemaInference
