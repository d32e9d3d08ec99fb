import SchemaInference.Stack
import SchemaInference.Text.Quoted
import SchemaInference.Value.Basic

/-!
Written forms of values. A value has one text when it stands alone, as a key does, and another when
it stands inside a value; the two differ for texts, moments and the like, where the inner form says
what the value is. Writing a value is refused where it has to write a whole number of too many
digits, or where values are nested too deep; the steps of writing say which comes first.
-/

namespace SchemaInference

namespace Leaf

/-- A span of time as days, where there are any, and a clock time. -/
def spanText (micros : Int) : String :=
  let days := micros.fdiv 86400000000
  let rest := (micros.fmod 86400000000).toNat
  let seconds := rest / 1000000
  let pair (n : Nat) := Number.padLeft 2 (Number.toDigits n)
  let clock := Number.toDigits (seconds / 3600) ++ ':' :: pair (seconds / 60 % 60)
    ++ ':' :: pair (seconds % 60)
    ++ if rest % 1000000 = 0 then [] else '.' :: Number.padLeft 6 (Number.toDigits (rest % 1000000))
  let front := if days = 0 then "" else
    toString days ++ (if days = 1 || days = -1 then " day, " else " days, ")
  front ++ String.ofList clock

/-- A span of time as the call that makes it. -/
def spanCall (micros : Int) : String :=
  let days := micros.fdiv 86400000000
  let rest := (micros.fmod 86400000000).toNat
  let part (name : String) (n : Int) := if n = 0 then [] else [name ++ "=" ++ toString n]
  let parts := part "days" days ++ part "seconds" (rest / 1000000 : Nat)
    ++ part "microseconds" (rest % 1000000 : Nat)
  "datetime.timedelta(" ++ (if parts.isEmpty then "0" else ", ".intercalate parts) ++ ")"

/-- A complex number; a real part of positive zero is left out, and the brackets with it. -/
def complexText (re im : Binary64) : String :=
  let imaginary := im.shortText ++ "j"
  if re = .finite false 0 0 then imaginary else
    let sign := if imaginary.startsWith "-" then "" else "+"
    "(" ++ re.shortText ++ sign ++ imaginary ++ ")"

/-- A leaf that stands inside a value. -/
def inner : Leaf → String
  | .moment m => m.callText
  | .pattern text => "re.compile(" ++ String.ofList ((Text.quoted text).toList.take 200) ++ ")"
  | .failure _ text => "Exception(" ++ Text.quoted text ++ ")"
  | .deferred mark => "<deferred " ++ toString mark ++ ">"
  | .buffer .fixed bytes => Text.quotedBytes bytes
  | .buffer .changing bytes => "bytearray(" ++ Text.quotedChangingBytes bytes ++ ")"
  | .window w _ =>
    (if w.released then "<released memory " else "<memory ") ++ toString w.mark ++ ">"
  | .fraction q => "Fraction(" ++ toString q.num ++ ", " ++ toString q.den ++ ")"
  | .complex re im => complexText re im
  | .span micros => spanCall micros
  | .range stop => "range(0, " ++ toString stop ++ ")"
  | .bare mark => "<object " ++ toString mark ++ ">"
  | .incomparable => "<unhashable>"

/-- A leaf that stands alone. -/
def alone : Leaf → String
  | .moment m => m.text
  | .failure _ text => text
  | .fraction q => if q.den = 1 then toString q.num else toString q.num ++ "/" ++ toString q.den
  | .span micros => spanText micros
  | l => l.inner

end Leaf

namespace Value

/-- A list in square brackets, a tuple in round ones. A comma closes a tuple of one item. -/
def listText (form : ListForm) (items : List String) : String :=
  match form, items with
  | .list, items => "[" ++ ", ".intercalate items ++ "]"
  | .tuple, [item] => "(" ++ item ++ ",)"
  | .tuple, items => "(" ++ ", ".intercalate items ++ ")"

/-- Entries in braces. -/
def entriesText (entries : List (String × String)) : String :=
  "\x7b" ++ ", ".intercalate (entries.map fun (key, item) => key ++ ": " ++ item) ++ "\x7d"

/-- Members in braces. An empty set has no braces of its own, so its name stands for it. -/
def setText (form : SetForm) (members : List String) : String :=
  match form, members with
  | .changing, [] => "set()"
  | .frozen, [] => "frozenset()"
  | .changing, members => "\x7b" ++ ", ".intercalate members ++ "\x7d"
  | .frozen, members => "frozenset(\x7b" ++ ", ".intercalate members ++ "\x7d)"

mutual

/-- A value that stands inside another. -/
def inner : Value → String
  | .null => "None"
  | .bool b => if b then "True" else "False"
  | .number (.decimal d) => "Decimal('" ++ d.text ++ "')"
  | .number n => n.text
  | .text s => Text.quoted s
  | .list form items => listText form (innerItems items)
  | .map .plain entries => entriesText (innerEntries entries)
  | .map .ordered entries =>
    if entries.isEmpty then "OrderedDict()" else
      "OrderedDict([" ++ ", ".intercalate
        ((innerEntries entries).map fun (key, item) => "(" ++ key ++ ", " ++ item ++ ")") ++ "])"
  | .view .readOnly entries => "mappingproxy(" ++ entriesText (innerEntries entries) ++ ")"
  | .view .wrapper entries => entriesText (innerEntries entries)
  | .set form members => setText form (innerItems members)
  | .leaf l => l.inner

def innerItems : List Value → List String
  | [] => []
  | v :: rest => inner v :: innerItems rest

def innerEntries : List (Value × Value) → List (String × String)
  | [] => []
  | (key, item) :: rest => (inner key, inner item) :: innerEntries rest

end

/-- A value that stands alone, as a key does. -/
def alone : Value → String
  | .text s => s
  | .number n => n.text
  | .leaf l => l.alone
  | .view _ entries => entriesText (innerEntries entries)
  | v => v.inner

@[simp] theorem alone_text (s : String) : alone (.text s) = s := rfl

end Value

/-! ## The steps of writing -/

/-- The steps of writing a whole number. -/
def Number.wholeSteps (n : Int) : List Step := if isOverlong n then [.refusal .overlong] else []

namespace Leaf

/-- How many calls the inner form of a leaf takes. -/
def innerCalls : Leaf → Nat
  | .moment m => if m.offset?.isNone then 1 else if m.offset? = some 0 then 2 else 3
  | .pattern _ | .failure .. | .range _ => 2
  | .fraction _ => 3
  | _ => 1

/-- How many calls the form of a leaf takes that stands alone. -/
def aloneCalls : Leaf → Nat
  | .moment m => if m.offset?.isNone then 2 else 3
  | .failure .. => 1
  | l => l.innerCalls

/-- The steps of writing the whole numbers in a leaf. -/
def wholeSteps : Leaf → List Step
  | .fraction q => Number.wholeSteps q.num ++ Number.wholeSteps q.den
  | .range stop => Number.wholeSteps stop
  | _ => []

end Leaf

namespace Value

/-- How many calls lead from a value with parts to the parts, or to its text if it has none. -/
def partCalls : Value → Nat
  | .map .ordered entries => if entries.isEmpty then 1 else 3
  | .set _ members => if members.isEmpty then 1 else 2
  | .view .readOnly _ => 2
  | .view .wrapper _ => 4
  | .leaf l => l.innerCalls
  | _ => 1

mutual

/-- The steps of writing a value inside another, after so many calls. -/
def innerSteps (height : Nat) : Value → List Step
  | .number (.int n) => .call (height + 1) :: Number.wholeSteps n
  | .list form items =>
    let height := height + partCalls (.list form items)
    .call height :: innerItemsSteps height items
  | .map form entries =>
    let height := height + partCalls (.map form entries)
    .call height :: innerEntriesSteps height entries
  | .view form entries =>
    let height := height + partCalls (.view form entries)
    .call height :: innerEntriesSteps height entries
  | .set form members =>
    let height := height + partCalls (.set form members)
    .call height :: innerItemsSteps height members
  | .leaf l => .call (height + l.innerCalls) :: l.wholeSteps
  | _ => [.call (height + 1)]

def innerItemsSteps (height : Nat) : List Value → List Step
  | [] => []
  | v :: rest => innerSteps height v ++ innerItemsSteps height rest

def innerEntriesSteps (height : Nat) : List (Value × Value) → List Step
  | [] => []
  | (key, item) :: rest =>
    innerSteps height key ++ innerSteps height item ++ innerEntriesSteps height rest

end

/-- The steps of writing a value that stands alone. A text is there already. -/
def aloneSteps (height : Nat) : Value → List Step
  | .text _ => []
  | .leaf l => .call (height + l.aloneCalls) :: l.wholeSteps
  | v => v.innerSteps height

@[simp] theorem aloneSteps_text (height : Nat) (s : String) : aloneSteps height (.text s) = [] :=
  rfl

end Value

end SchemaInference
