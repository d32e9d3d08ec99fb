import SchemaInference.Regex.Basic
import SchemaInference.Text.Quoted

/-!
Faults of texts that should be expressions: a cause, and the place where it shows. The report of a
fault gives the place as a count of characters, and by line and column if the text has more lines
than one.
-/

namespace SchemaInference

namespace Regex

/-- Why a text is no expression. -/
inductive Cause where
  | loneBackslash
  | cutEscape (escape : List Char)
  | unknownEscape (escape : List Char)
  | largeOctal (escape : List Char)
  | unbracedName
  | unknownCharacter (name : List Char)
  | openGroup
  | groupOfSameLook
  | noGroup (number : Nat)
  | groupZero
  | openSet
  | badSpan (first last : List Char)
  | nothingRepeated
  | repeatedTwice
  | crossedBounds
  | hugeBound
  | cutGroup
  | missingName (what : String)
  | openName (closing : Char)
  | badName (name : List Char)
  | unknownName (name : List Char)
  | takenName (name : List Char) (number earlier : Nat)
  | unknownExtension (text : List Char)
  | openComment
  | unclosedGroup
  | unopenedGroup
  | thirdBranch
  | lateFlags
  | localeFlag
  | clashingFlags
  | unknownFlag
  | missingFlag
  | openFlags
  | openFlagsOff
  | globalFlagOn
  | globalFlagOff
  | typeFlagOff
  | flagOnAndOff
  | clashingAlphabets
  | bareRepetition (greed : Greed)
  | farLook
  | looseLook
  deriving DecidableEq, Repr

/-- What kind of fault a cause is: of the text of an expression, of a number that is too large, or
of values that do not go together. -/
inductive FaultKind where
  | ofText
  | ofSize
  | ofValue
  deriving DecidableEq, Repr

namespace Cause

/-- The kind of a fault with this cause. -/
def kind : Cause → FaultKind
  | .hugeBound => .ofSize
  | .clashingAlphabets => .ofValue
  | _ => .ofText

/-- The name of a kind of repetition. -/
def repetitionName : Greed → String
  | .most => "MAX_REPEAT"
  | .fewest => "MIN_REPEAT"
  | .keeping => "POSSESSIVE_REPEAT"

/-- The words for a cause. -/
def message : Cause → String
  | .loneBackslash => "bad escape (end of pattern)"
  | .cutEscape escape => "incomplete escape " ++ String.ofList escape
  | .unknownEscape escape => "bad escape " ++ String.ofList escape
  | .largeOctal escape =>
    "octal escape value " ++ String.ofList escape ++ " outside of range 0-0o377"
  | .unbracedName => "missing \x7b"
  | .unknownCharacter name => "undefined character name " ++ Text.quoted (String.ofList name)
  | .openGroup => "cannot refer to an open group"
  | .groupOfSameLook => "cannot refer to group defined in the same lookbehind subpattern"
  | .noGroup number => "invalid group reference " ++ toString number
  | .groupZero => "bad group number"
  | .openSet => "unterminated character set"
  | .badSpan first last =>
    "bad character range " ++ String.ofList first ++ "-" ++ String.ofList last
  | .nothingRepeated => "nothing to repeat"
  | .repeatedTwice => "multiple repeat"
  | .crossedBounds => "min repeat greater than max repeat"
  | .hugeBound => "the repetition number is too large"
  | .cutGroup => "unexpected end of pattern"
  | .missingName what => "missing " ++ what
  | .openName closing => "missing " ++ closing.toString ++ ", unterminated name"
  | .badName name => "bad character in group name " ++ Text.quoted (String.ofList name)
  | .unknownName name => "unknown group name " ++ Text.quoted (String.ofList name)
  | .takenName name number earlier =>
    "redefinition of group name " ++ Text.quoted (String.ofList name) ++ " as group "
      ++ toString number ++ "; was group " ++ toString earlier
  | .unknownExtension text => "unknown extension ?" ++ String.ofList text
  | .openComment => "missing ), unterminated comment"
  | .unclosedGroup => "missing ), unterminated subpattern"
  | .unopenedGroup => "unbalanced parenthesis"
  | .thirdBranch => "conditional backref with more than two branches"
  | .lateFlags => "global flags not at the start of the expression"
  | .localeFlag => "bad inline flags: cannot use 'L' flag with a str pattern"
  | .clashingFlags => "bad inline flags: flags 'a', 'u' and 'L' are incompatible"
  | .unknownFlag => "unknown flag"
  | .missingFlag => "missing flag"
  | .openFlags => "missing -, : or )"
  | .openFlagsOff => "missing :"
  | .globalFlagOn => "bad inline flags: cannot turn on global flag"
  | .globalFlagOff => "bad inline flags: cannot turn off global flag"
  | .typeFlagOff => "bad inline flags: cannot turn off flags 'a', 'u' and 'L'"
  | .flagOnAndOff => "bad inline flags: flag turned on and off"
  | .clashingAlphabets => "ASCII and UNICODE flags are incompatible"
  | .bareRepetition greed => "internal: unsupported template operator " ++ repetitionName greed
  | .farLook => "looks too much behind"
  | .looseLook => "look-behind requires fixed-width pattern"

end Cause

/-- A fault: a cause and, where there is one, the place that shows it. -/
structure Fault where
  cause : Cause
  position : Option Nat
  deriving DecidableEq, Repr

namespace Fault

/-- The line and the column of a place in a text, both counted from one on. -/
def lineAndColumn (cs : List Char) (position : Nat) : Nat × Nat :=
  let before := cs.take position
  (before.count '\n' + 1, (before.reverse.takeWhile (· != '\n')).length + 1)

/-- The report of a fault in a text. -/
def message (f : Fault) (text : String) : String :=
  match f.position with
  | none => f.cause.message
  | some position =>
    let place := f.cause.message ++ " at position " ++ toString position
    if text.toList.contains '\n' then
      let (line, column) := lineAndColumn text.toList position
      place ++ " (line " ++ toString line ++ ", column " ++ toString column ++ ")"
    else place

end Fault

end Regex

end SchemaInference
