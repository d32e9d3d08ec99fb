import SchemaInference.Tag
import SchemaInference.Text.Blank

/-!
Labels: the printable unions of tags, such as `string | number | null`. The tags stand in a fixed
order, an enumeration of texts takes the place of `string`, and a label can be split into its
members again. Brackets keep an enumeration, whose values stand between the same bars, in one piece.
-/

namespace SchemaInference

/-- How early a tag stands in a label. Tags without a rank stand last. -/
def rank (tag : String) : Nat :=
  match tag with
  | "date" => 12
  | "regexp" => 11
  | "error" => 10
  | "map" => 9
  | "set" => 8
  | "deferred" => 7
  | "buffer" => 6
  | "object" => 5
  | "array" => 4
  | "string" => 3
  | "number" => 2
  | "boolean" => 1
  | _ => 0

/-- Whether one tag stands before another: by rank, and by code points where ranks are equal. -/
def standsBefore (a b : String) : Bool :=
  rank b < rank a || (rank a == rank b && a < b)

/-- Puts a tag where it stands in a row of others. -/
def insertRanked (tag : String) : List String → List String
  | [] => [tag]
  | other :: rest =>
    if standsBefore tag other then tag :: other :: rest else other :: insertRanked tag rest

/-- The distinct tags of a list, each where it stands in a label. -/
def sortTags (tags : List String) : List String := (ascending tags).foldr insertRanked []

namespace Label

/-- The bar between the members of a label. -/
def bar : String := " | "

/-- An enumeration: its distinct values in ascending order. -/
def ofEnum (values : List String) : String := "enum(" ++ bar.intercalate (ascending values) ++ ")"

/-- The tags that are members of a label in their own right, in order; the enumeration, if there is
one, stands for `string`. -/
def members (tags : List String) (enum : Option (List String)) : List String :=
  let proper := (sortTags tags).filter fun tag => tag != "null" && tag != "undefined"
  match enum with
  | none => proper
  | some values => proper.map fun tag => if tag == "string" then ofEnum values else tag

/-- The label of a set of tags. Null and undefined close it when the flags say so; a label without
any tag says only which of the two it is. -/
def render (tags : List String) (enum : Option (List String)) (nullable optional : Bool) : String :=
  let proper := members tags enum
  if proper.isEmpty then (if nullable then "null" else "undefined")
  else bar.intercalate (proper ++ (if nullable then ["null"] else [])
    ++ (if optional then ["undefined"] else []))

/-- Cuts at every bar, from the left. -/
def cutBars : List Char → List (List Char)
  | ' ' :: '|' :: ' ' :: rest => [] :: cutBars rest
  | c :: rest =>
    match cutBars rest with
    | [] => [[c]]
    | piece :: pieces => (c :: piece) :: pieces
  | [] => [[]]

/-- How many more brackets a text opens than it closes. -/
def balance (cs : List Char) : Int := (cs.count '(' : Int) - cs.count ')'

/-- Groups the pieces of a label that open brackets hold together. `opened` is what is open before
the first piece; a piece that closes everything, or more, ends its group. -/
def groupOpen (opened : Int) : List (List Char) → List (List (List Char))
  | [] => []
  | piece :: pieces =>
    let opened := opened + balance piece
    if opened ≤ 0 then [piece] :: groupOpen 0 pieces
    else
      match groupOpen opened pieces with
      | [] => [[piece]]
      | group :: groups => (piece :: group) :: groups

/-- The members of a label as they stand in it. -/
def rawMembers (cs : List Char) : List (List Char) :=
  (groupOpen 0 (cutBars cs)).map bar.toList.intercalate

/-- The members of a label, enumerations in one piece, without the blanks around them. -/
def split (label : String) : List String :=
  (rawMembers label.toList).map fun cs => String.ofList (Text.trimBy Text.isBlank cs)

/-- The characters between the brackets of an enumeration. -/
def enumBody? (cs : List Char) : Option (List Char) :=
  match cs with
  | 'e' :: 'n' :: 'u' :: 'm' :: '(' :: body =>
    if body.getLast? = some ')' then some body.dropLast else none
  | _ => none

/-- The values of a label that is one enumeration and nothing else. -/
def enumValues? (label : String) : Option (List String) :=
  match enumBody? label.toList with
  | none => none
  | some body =>
    if (split label).length = 1 then
      some ((cutBars body).map fun cs => String.ofList (Text.trimBy Text.isBlank cs))
    else none

end Label

end SchemaInference
