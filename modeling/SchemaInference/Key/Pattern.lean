import SchemaInference.Key.Rule
import SchemaInference.Path

/-!
Naming conventions of keys. A key belongs to the first convention that it follows; keys of one map
have a pattern when they all belong to one convention, or when they share what stands before their
first underscore or point.
-/

namespace SchemaInference

/-- What the keys of a map have in common. -/
inductive KeyPattern where
  | word
  | pascalCase
  | camelCase
  | snakeCase
  | numeric
  | prefixed
  | mixed
  deriving DecidableEq, Repr

namespace KeyPattern

/-- The patterns, in the order in which messages list them. -/
def all : List KeyPattern :=
  [.word, .pascalCase, .camelCase, .snakeCase, .numeric, .prefixed, .mixed]

/-- The name of a pattern. The name of a convention follows it. -/
def name : KeyPattern → String
  | .word => "word"
  | .pascalCase => "PascalCase"
  | .camelCase => "camelCase"
  | .snakeCase => "snake_case"
  | .numeric => "numeric"
  | .prefixed => "prefixed"
  | .mixed => "mixed"

/-- The pattern with a name. -/
def ofName? (s : String) : Option KeyPattern := all.find? fun p => p.name == s

theorem ofName?_name (p : KeyPattern) : ofName? p.name = some p := by cases p <;> decide

/-- A small letter. -/
def lower : Regex := .one (.between 'a' 'z')

/-- A capital letter. -/
def upper : Regex := .one (.between 'A' 'Z')

/-- The expression of a convention of single keys. -/
def regex? : KeyPattern → Option Regex
  | .word => some (.plus lower)
  | .pascalCase => some (.seq upper (.plus lower))
  | .camelCase => some (.seq (.plus lower) (.star (.seq upper (.plus lower))))
  | .snakeCase => some (.seq (.plus lower) (.star (.seq (.char '_') (.plus lower))))
  | .numeric | .prefixed | .mixed => none

/-- The text of the expression of a convention. -/
def regexText? : KeyPattern → Option String
  | .word => some "[a-z]+"
  | .pascalCase => some "[A-Z][a-z]+"
  | .camelCase => some "[a-z]+(?:[A-Z][a-z]+)*"
  | .snakeCase => some "[a-z]+(?:_[a-z]+)*"
  | .numeric | .prefixed | .mixed => none

/-- Whether a key follows a convention. -/
def holds (p : KeyPattern) (key : String) : Bool :=
  match p.regex? with
  | some r => r.accepts key.toList
  | none => false

/-- The convention of one key: the first that it follows. The wildcard is numeric. -/
def classify (segment : Segment) : KeyPattern :=
  if segment.isWildcard then .numeric
  else
    match [word, pascalCase, camelCase, snakeCase].find? (·.holds segment.text) with
    | some p => p
    | none => .mixed

/-- Whether a character ends a stem. -/
def separates (c : Char) : Bool := c == '_' || c == '.'

/-- What stands in a key before its first underscore or point. -/
def stem (key : String) : String := String.ofList (key.toList.takeWhile fun c => !separates c)

/-- The stem that all keys share, unless it is empty. -/
def sharedStem : List String → Option String
  | [] => none
  | key :: rest =>
    if stem key != "" && rest.all fun other => stem other == stem key then some (stem key) else none

/-- The pattern of the keys of one map; there is none without keys. -/
def ofKeys (segments : List Segment) : Option KeyPattern :=
  match segments with
  | [] => none
  | first :: rest =>
    if segments.all Segment.isWildcard then some .numeric
    else
      let convention := classify first
      if convention != .mixed && rest.all fun s => classify s == convention then some convention
      else if (sharedStem (segments.map Segment.text)).isSome then some .prefixed
      else some .mixed

/-- The characters that an expression reads as more than themselves. -/
def specialChars : List Char := "()[]\x7b\x7d?*+-|^$\\.&~# \t\n\r\x0b\x0c".toList

/-- A text written such that an expression reads it as itself. -/
def escaped (cs : List Char) : List Char :=
  cs.flatMap fun c => if specialChars.contains c then ['\\', c] else [c]

/-- The rule for keys with a stem: the stem alone, or with more after an underscore or a point. -/
def stemRule (stem : String) : KeyRule :=
  ⟨"^" ++ String.ofList (escaped stem.toList) ++ "(?:[_.].*)?$"⟩

/-- The rule that every key of a record of this pattern must follow, if there is one. -/
def rule? (p : KeyPattern) (stem : Option String) : Option KeyRule :=
  match p, stem with
  | .prefixed, some stem => if stem == "" then none else some (stemRule stem)
  | p, _ => p.regexText?.map fun text => ⟨"^" ++ text ++ "$"⟩

end KeyPattern

end SchemaInference
