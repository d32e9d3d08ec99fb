import SchemaInference.Json.Basic
import SchemaInference.Text.Blank
import SchemaInference.Text.Quoted

/-!
Decoding values field by field. A field is refused for a cause at a place, and all refusals of a
value are reported together, in the order of its fields. Some leeway is granted: a whole number may
come as a truth value, as a number without fraction or as a text, and a truth value as a number or
as one of a dozen words.
-/

namespace SchemaInference

/-- Why a value was refused. -/
inductive FieldCause where
  | notInteger
  | integerText
  | fractional
  | notFinite
  | tooLarge
  | below (least : Int)
  | above (most : Int)
  | notBoolean
  | booleanText
  | notString
  | notList
  | notTuple
  | notSet
  | notMap
  | notRecord
  | notModel (name : String)
  | tooShort (least actual : Nat)
  | missing
  | unknown
  | notOneOf (code : String) (choices : List String)
  | noKind
  | unknownKind (given family : String) (kinds : List String)
  | malformed (message : String)
  deriving DecidableEq, Repr

namespace FieldCause

/-- The short name of a cause. -/
def code : FieldCause → String
  | .notInteger => "int_type"
  | .integerText => "int_parsing"
  | .fractional => "int_from_float"
  | .notFinite => "finite_number"
  | .tooLarge => "int_parsing_size"
  | .below _ => "greater_than_equal"
  | .above _ => "less_than_equal"
  | .notBoolean => "bool_type"
  | .booleanText => "bool_parsing"
  | .notString => "string_type"
  | .notList => "list_type"
  | .notTuple => "tuple_type"
  | .notSet => "frozen_set_type"
  | .notMap => "dict_type"
  | .notRecord => "model_attributes_type"
  | .notModel _ => "model_type"
  | .tooShort .. => "too_short"
  | .missing => "missing"
  | .unknown => "extra_forbidden"
  | .notOneOf code _ => code
  | .noKind => "union_tag_not_found"
  | .unknownKind .. => "union_tag_invalid"
  | .malformed _ => "json_invalid"

/-- Choices in quotes with commas between them and `or` before the last. -/
def choicesText (choices : List String) : String :=
  let texts := choices.map Text.quoted
  match texts.reverse with
  | [] => ""
  | [only] => only
  | last :: rest => ", ".intercalate rest.reverse ++ " or " ++ last

/-- The kinds of a family with the names that they go by. -/
def kindsText (family : String) (kinds : List String) : String :=
  ", ".intercalate <| kinds.map fun kind =>
    "<" ++ family ++ "." ++ kind.map Char.toUpper ++ ": " ++ Text.quoted kind ++ ">"

/-- The sentence for a cause. -/
def message : FieldCause → String
  | .notInteger => "Input should be a valid integer"
  | .integerText => "Input should be a valid integer, unable to parse string as an integer"
  | .fractional => "Input should be a valid integer, got a number with a fractional part"
  | .notFinite => "Input should be a finite number"
  | .tooLarge => "Unable to parse input string as an integer, exceeded maximum size"
  | .below least => "Input should be greater than or equal to " ++ toString least
  | .above most => "Input should be less than or equal to " ++ toString most
  | .notBoolean => "Input should be a valid boolean"
  | .booleanText => "Input should be a valid boolean, unable to interpret input"
  | .notString => "Input should be a valid string"
  | .notList => "Input should be a valid list"
  | .notTuple => "Input should be a valid tuple"
  | .notSet => "Input should be a valid frozenset"
  | .notMap => "Input should be a valid dictionary"
  | .notRecord => "Input should be a valid dictionary or object to extract fields from"
  | .notModel name => "Input should be a valid dictionary or instance of " ++ name
  | .tooShort least actual =>
    "List should have at least " ++ toString least ++ (if least = 1 then " item" else " items")
      ++ " after validation, not " ++ toString actual
  | .missing => "Field required"
  | .unknown => "Extra inputs are not permitted"
  | .notOneOf _ choices => "Input should be " ++ choicesText choices
  | .noKind => "Unable to extract tag using discriminator 'kind'"
  | .unknownKind given family kinds =>
    "Input tag '" ++ given ++ "' found using 'kind' does not match any of the expected tags: "
      ++ kindsText family kinds
  | .malformed _ => "JSON decode error"

end FieldCause

/-- A refusal and where it was made: names of fields, kinds and positions, the outermost first. -/
structure FieldFault where
  location : List String
  cause : FieldCause
  deriving DecidableEq, Repr

/-- What decoding gives: a value, or every refusal on the way. -/
inductive Checked (α : Type u) where
  | ok (value : α)
  | faulty (faults : List FieldFault)

namespace Checked

/-- Changes a value that has been decoded; refusals stay as they are. -/
def map (f : α → β) : Checked α → Checked β
  | .ok a => .ok (f a)
  | .faulty faults => .faulty faults

/-- Both parts are decoded, and the refusals of both are kept. -/
def both (a : Checked α) (b : Checked β) : Checked (α × β) :=
  match a, b with
  | .ok a, .ok b => .ok (a, b)
  | .faulty faults, .ok _ | .ok _, .faulty faults => .faulty faults
  | .faulty faults, .faulty more => .faulty (faults ++ more)

/-- Goes on with a value that has been decoded. -/
def andThen (a : Checked α) (f : α → Checked β) : Checked β :=
  match a with
  | .ok a => f a
  | .faulty faults => .faulty faults

/-- A refusal where decoding stands. -/
def refuse (cause : FieldCause) : Checked α := .faulty [⟨[], cause⟩]

/-- Puts a step before the places of all refusals. -/
def within (step : String) : Checked α → Checked α
  | .ok a => .ok a
  | .faulty faults => .faulty (faults.map fun f => { f with location := step :: f.location })

/-- The value if there is one, else a refusal. -/
def ofOption (cause : FieldCause) : Option α → Checked α
  | some a => .ok a
  | none => .faulty [⟨[], cause⟩]

/-- All of a list, with the refusals of all. -/
def all : List (Checked α) → Checked (List α)
  | [] => .ok []
  | a :: rest => (both a (all rest)).map fun (a, rest) => a :: rest

end Checked

namespace Field

/-- A text without single bars between its characters; such bars may only stand between two
characters that are none. -/
def stripBars (cs : List Char) : List Char :=
  let inside := cs.head? != some '_' && cs.getLast? != some '_'
  let doubled := (cs.zip (cs.drop 1)).any fun (a, b) => a == '_' && b == '_'
  if inside && !doubled then cs.filter (· != '_') else cs

/-- The whole number that a text stands for: blanks around it, a sign, leading zeros, bars between
digits and a fraction of zeros are allowed. -/
def integerOfText? (s : String) : Option Int :=
  let cs := Text.trimBy Text.isSpace s.toList
  let (negative, cs) := match cs with
    | '-' :: rest => (true, rest)
    | '+' :: rest => (false, rest)
    | rest => (false, rest)
  let whole := cs.takeWhile (· != '.')
  let zeros := match cs.drop whole.length with
    | [] => true
    | _ :: fraction => fraction.all (· == '0')
  let digits := stripBars whole
  if !zeros || digits.isEmpty || !digits.all Number.isDigit then none
  else
    let n : Int := Number.ofDigits digits
    some (if negative then -n else n)

/-- The most characters of a text that is read as a whole number. -/
def maxIntegerText : Nat := 4300

/-- A whole number. -/
def integer : Json → Checked Int
  | .int n => .ok n
  | .bool b => .ok (if b then 1 else 0)
  | .real (.finite negative mantissa exponent) =>
    match (Binary64.finite negative mantissa exponent).whole? with
    | none => .refuse .fractional
    | some n => if n.natAbs < Nat.pow 2 63 then .ok n else .refuse .tooLarge
  | .real _ => .refuse .notFinite
  | .str s =>
    if maxIntegerText < (Text.trimBy Text.isSpace s.toList).length then .refuse .tooLarge
    else .ofOption .integerText (integerOfText? s)
  | _ => .refuse .notInteger

/-- A whole number that is not below `least`. -/
def atLeast (least : Nat) (j : Json) : Checked { n : Nat // least ≤ n } :=
  (integer j).andThen fun n =>
    if low : n < least then .refuse (.below least) else .ok ⟨n.toNat, by omega⟩

/-- A whole number that is neither below `least` nor above `most`. -/
def between (least most : Nat) (j : Json) : Checked { n : Nat // least ≤ n ∧ n ≤ most } :=
  (integer j).andThen fun n =>
    if high : most < n then .refuse (.above most)
    else if low : n < least then .refuse (.below least)
    else .ok ⟨n.toNat, by omega⟩

/-- The truth value that a word stands for, in any letter case. -/
def booleanOfText? (s : String) : Option Bool :=
  let word := s.map Char.toLower
  if ["0", "off", "f", "false", "n", "no"].contains word then some false
  else if ["1", "on", "t", "true", "y", "yes"].contains word then some true
  else none

/-- The truth value that a number stands for: zero or one. -/
def booleanOfInt? (n : Int) : Option Bool :=
  if n = 0 then some false else if n = 1 then some true else none

/-- A truth value. -/
def boolean : Json → Checked Bool
  | .bool b => .ok b
  | .int n => .ofOption .booleanText (booleanOfInt? n)
  | .real x =>
    match x.whole? with
    | some n => .ofOption .booleanText (booleanOfInt? n)
    | none => .refuse .notBoolean
  | .str s => .ofOption .booleanText (booleanOfText? s)
  | _ => .refuse .notBoolean

/-- A text. Nothing else is taken for one. -/
def string : Json → Checked String
  | .str s => .ok s
  | _ => .refuse .notString

/-- A list, with `decode` for each item at its position. -/
def items (cause : FieldCause) (decode : Json → Checked α) : Json → Checked (List α)
  | .arr js => .all (js.zipIdx.map fun (j, i) => (decode j).within (toString i))
  | _ => .refuse cause

/-- A value or null. -/
def optional (decode : Json → Checked α) : Json → Checked (Option α)
  | .null => .ok none
  | j => (decode j).map some

/-- A field of an object that must be there. -/
def required (members : List (String × Json)) (name : String) (decode : Json → Checked α) :
    Checked α :=
  Checked.within name <|
    match Assoc.find? name members with
    | some j => decode j
    | none => .refuse .missing

/-- A field of an object that has a value of its own when it is not there. -/
def withDefault (members : List (String × Json)) (name : String) (otherwise : α)
    (decode : Json → Checked α) : Checked α :=
  Checked.within name <|
    match Assoc.find? name members with
    | some j => decode j
    | none => .ok otherwise

/-- Refuses every member whose name is none of the known ones. -/
def onlyKnown (known : List String) (members : List (String × Json)) : Checked Unit :=
  let strangers := members.filter fun (name, _) => !known.contains name
  (Checked.all (strangers.map fun (name, _) =>
    Checked.within name (.refuse .unknown : Checked Unit))).map fun _ => ()

end Field

end SchemaInference
