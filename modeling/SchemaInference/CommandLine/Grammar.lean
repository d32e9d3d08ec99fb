import SchemaInference.Text.Numeral
import SchemaInference.Text.Quoted

/-!
Arguments of programs: named options, some of them with a value, and one operand. The name of an
option may be cut short as long as it is that of no other; after two dashes every argument is an
operand, and a negative number is one anywhere.
-/

namespace SchemaInference.CommandLine

/-- What an option does: it asks for help, it is set or not, or it takes a value, which may have to
be a whole number. -/
inductive OptionKind where
  | help
  | flag
  | text
  | integer
  deriving DecidableEq, Repr

/-- An option by its names. -/
structure OptionSpec where
  names : List String
  kind : OptionKind
  required : Bool := false
  deriving DecidableEq, Repr

namespace OptionSpec

/-- The names of an option as it is spoken of. -/
def shown (o : OptionSpec) : String := "/".intercalate o.names

/-- Whether an argument follows the name of an option and belongs to it. -/
def takesValue (o : OptionSpec) : Bool := o.kind == .text || o.kind == .integer

end OptionSpec

/-- What an operand is: one argument, one or more that follow each other, or a command with all
arguments after it. -/
inductive OperandKind where
  | one
  | many
  | command (choices : List String)
  deriving DecidableEq, Repr

/-- The operand of a program, which must be there. -/
structure OperandSpec where
  name : String
  kind : OperandKind
  deriving DecidableEq, Repr

/-- The arguments that a program takes. -/
structure Grammar where
  program : String
  options : List OptionSpec
  operand : OperandSpec
  deriving DecidableEq, Repr

/-- What is wrong with arguments. -/
inductive UsageCause where
  | ambiguous (given : String) (matched : List String)
  | ignoredValue (option value : String)
  | missingValue (option : String)
  | notInteger (option value : String)
  | unknownCommand (operand given : String) (choices : List String)
  | required (names : List String)
  | unrecognized (given : List String)
  deriving DecidableEq, Repr

/-- What is wrong with the arguments of a program. -/
structure UsageFault where
  program : String
  cause : UsageCause
  deriving DecidableEq, Repr

namespace UsageCause

/-- The sentence for a cause. -/
def message : UsageCause → String
  | .ambiguous given matched =>
    "ambiguous option: " ++ given ++ " could match " ++ ", ".intercalate matched
  | .ignoredValue option value =>
    "argument " ++ option ++ ": ignored explicit argument " ++ Text.quoted value
  | .missingValue option => "argument " ++ option ++ ": expected one argument"
  | .notInteger option value =>
    "argument " ++ option ++ ": invalid int value: " ++ Text.quoted value
  | .unknownCommand operand given choices =>
    "argument " ++ operand ++ ": invalid choice: " ++ Text.quoted given ++ " (choose from "
      ++ ", ".intercalate (choices.map Text.quoted) ++ ")"
  | .required names => "the following arguments are required: " ++ ", ".intercalate names
  | .unrecognized given => "unrecognized arguments: " ++ " ".intercalate given

end UsageCause

namespace UsageFault

/-- The line that tells a user of a fault. -/
def line (f : UsageFault) : String := f.program ++ ": error: " ++ f.cause.message

end UsageFault

/-- What an argument is, before it is known what it is for. An option that no name fits may be one
of a command. -/
inductive Token where
  | option (o : OptionSpec) (value : Option String) (text : String)
  | stranger (text : String)
  | operand (text : String)
  | separator
  deriving DecidableEq, Repr

namespace Token

/-- An argument as it was given. -/
def text : Token → String
  | .option _ _ text | .stranger text | .operand text => text
  | .separator => "--"

end Token

/-- The name before an equals sign and the value after it. -/
def cutValue (arg : String) : String × Option String :=
  let name := arg.toList.takeWhile (· != '=')
  match arg.toList.drop name.length with
  | [] => (arg, none)
  | _ :: value => (String.ofList name, some (String.ofList value))

/-- Whether an argument is a negative number, with a point or without one. -/
def isNegativeNumber (arg : String) : Bool :=
  match arg.toList with
  | '-' :: cs =>
    let cs := if cs.getLast? = some '\n' then cs.dropLast else cs
    let fraction := cs.dropWhile Text.isNumeral
    match fraction with
    | [] => !cs.isEmpty
    | '.' :: digits => !digits.isEmpty && digits.all Text.isNumeral
    | _ => false
  | _ => false

namespace Grammar

/-- The options by each of their names. -/
def named (g : Grammar) : List (String × OptionSpec) :=
  g.options.flatMap fun o => o.names.map fun name => (name, o)

/-- The option with a name. -/
def option? (g : Grammar) (name : String) : Option OptionSpec := g.named.lookup name

/-- The options that an argument may mean by the beginning of a name, each with the value that the
argument gives it. A letter after one dash may be followed by its value at once. -/
def guesses (g : Grammar) (arg : String) : List (String × OptionSpec × Option String) :=
  if arg.startsWith "--" then
    let (front, value) := cutValue arg
    (g.named.filter fun (name, _) => name.startsWith front).map fun (name, o) => (name, o, value)
  else
    let letter := String.ofList (arg.toList.take 2)
    g.named.filterMap fun (name, o) =>
      if name == letter then some (name, o, some (String.ofList (arg.toList.drop 2)))
      else if name.startsWith arg then some (name, o, none)
      else none

/-- What an argument with a dash in front is. -/
def token (g : Grammar) (arg : String) : Except UsageCause Token :=
  if !arg.startsWith "-" then .ok (.operand arg)
  else
    match g.option? arg with
    | some o => .ok (.option o none arg)
    | none =>
      if arg == "-" then .ok (.operand arg)
      else
        let (name, value) := cutValue arg
        match value.isSome, g.option? name with
        | true, some o => .ok (.option o value arg)
        | _, _ =>
          match g.guesses arg with
          | [(_, o, value)] => .ok (.option o value arg)
          | [] =>
            if isNegativeNumber arg || arg.toList.contains ' ' then .ok (.operand arg)
            else .ok (.stranger arg)
          | guesses => .error (.ambiguous arg (guesses.map Prod.fst))

/-- What each argument is. -/
def tokens (g : Grammar) : List String → Except UsageCause (List Token)
  | [] => .ok []
  | "--" :: rest => .ok (.separator :: rest.map .operand)
  | arg :: rest =>
    match g.token arg with
    | .error cause => .error cause
    | .ok t => (g.tokens rest).map (t :: ·)

end Grammar

/-- What arguments say: options with their values, the operand, and arguments left over. A command
stands at the front of its arguments. -/
structure Given where
  options : List (OptionSpec × String) := []
  operand : List String := []
  extras : List String := []
  deriving DecidableEq, Repr

/-- How far the operand has come: it is waited for, with the separator that came before it; its
arguments are being taken; or it has ended. -/
inductive OperandState where
  | waiting (held : List String)
  | taking
  | ended
  deriving DecidableEq, Repr

/-- The outcome of reading arguments: a fault, a call for help, or what they say. -/
inductive Reading where
  | fault (cause : UsageCause)
  | help
  | given (given : Given)
  deriving DecidableEq, Repr

namespace Given

/-- What arguments say with one option more. -/
def addOption (g : Given) (o : OptionSpec) (value : String) : Given :=
  { g with options := g.options ++ [(o, value)] }

/-- What arguments say with more of the operand. -/
def addOperand (g : Given) (args : List String) : Given := { g with operand := g.operand ++ args }

/-- What arguments say with more that are left over. -/
def addExtras (g : Given) (args : List String) : Given := { g with extras := g.extras ++ args }

end Given

namespace Grammar

/-- An operand ends where an option begins; a separator without an operand after it is left over. -/
def endOperand (state : OperandState) (given : Given) : OperandState × Given :=
  match state with
  | .waiting held => (.waiting [], given.addExtras held)
  | .taking | .ended => (.ended, given)

/-- What is missing among the arguments. -/
def missing (g : Grammar) (given : Given) : List String :=
  let options := g.options.filter fun o => o.required && !given.options.any fun (o', _) => o' == o
  options.map OptionSpec.shown ++ if given.operand.isEmpty then [g.operand.name] else []

/-- A value for an option. -/
def checkValue (o : OptionSpec) (value : String) : Option UsageCause :=
  if o.kind == .integer && (Text.wholeOfText? value).isNone then some (.notInteger o.shown value)
  else none

/-- Whether a value follows the letter of an option at once, and is no option itself. -/
def isJoined (text value : String) : Bool :=
  !text.startsWith "--" && text.toList.drop 2 == value.toList && !value.startsWith "-"

/-- Reads arguments one by one. -/
def readTokens (g : Grammar) (state : OperandState) (given : Given) : List Token → Reading
  | [] =>
    let (_, given) := endOperand state given
    match g.missing given with
    | [] => .given given
    | names => .fault (.required names)
  | .stranger text :: rest =>
    let (state, given) := endOperand state given
    g.readTokens state (given.addExtras [text]) rest
  | .option o (some value) text :: rest =>
    let (state, given) := endOperand state given
    if o.takesValue then
      match checkValue o value with
      | some cause => .fault cause
      | none => g.readTokens state (given.addOption o value) rest
    else if o.kind == .help && isJoined text value then .help
    else .fault (.ignoredValue o.shown value)
  | .option o none _ :: rest =>
    let (state, given) := endOperand state given
    if o.takesValue then
      match rest with
      | .operand value :: rest =>
        match checkValue o value with
        | some cause => .fault cause
        | none => g.readTokens state (given.addOption o value) rest
      | _ => .fault (.missingValue o.shown)
    else if o.kind == .help then .help
    else g.readTokens state (given.addOption o "") rest
  | .separator :: rest =>
    match state with
    | .waiting held => g.readTokens (.waiting (held ++ ["--"])) given rest
    | .taking => g.readTokens state given rest
    | .ended => g.readTokens state (given.addExtras ["--"]) rest
  | .operand text :: rest =>
    match state, g.operand.kind with
    | .waiting held, .command choices =>
      let command := held ++ [text]
      match command.head? with
      | some name =>
        if choices.contains name then
          .given (given.addOperand (command ++ rest.map Token.text))
        else .fault (.unknownCommand g.operand.name name choices)
      | none => .given given
    | .waiting held, _ =>
      let args := if held.isEmpty then [text] else held.drop 1 ++ [text]
      g.readTokens .taking (given.addOperand args) rest
    | .taking, .many => g.readTokens .taking (given.addOperand [text]) rest
    | _, _ => g.readTokens .ended (given.addExtras [text]) rest

/-- Reads the arguments of a program. -/
def read (g : Grammar) (args : List String) : Reading :=
  match g.tokens args with
  | .error cause => .fault cause
  | .ok tokens => g.readTokens (.waiting []) {} tokens

end Grammar

end SchemaInference.CommandLine
