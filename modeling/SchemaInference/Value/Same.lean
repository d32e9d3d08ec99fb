import SchemaInference.Value.Written

/-!
When two values are the same one. Values that can be compared are the same when they are equal,
numbers by exact value; values that cannot are told apart by their written form. Some windows on
bytes refuse both, and some values their written form.
-/

namespace SchemaInference

namespace Value

/-- What a value amounts to as a number: truth values count as one and zero, and so does a complex
number without an imaginary part. -/
def amount? : Value → Option Amount
  | .bool b => some (.exact (if b then 1 else 0))
  | .number n => n.amount?
  | .leaf (.fraction q) => some (.exact q)
  | .leaf (.complex re im) => if im.amount = .exact 0 then some re.amount else none
  | _ => none

end Value

namespace Leaf

/-- What a buffer or a window is compared by: what its bytes are read as. -/
def readings? : Leaf → Option (List (Int ⊕ UInt8))
  | .buffer _ bytes => bytes.mapM WindowFormat.unsigned.reading?
  | .window w bytes => bytes.mapM w.format.reading?
  | _ => none

/-- Whether two buffers or windows are read as the same. -/
def readsLike (l l' : Leaf) : Bool :=
  match l.readings?, l'.readings? with
  | some readings, some readings' => readings = readings'
  | _, _ => false

/-- Whether two leaves without parts, and not numbers, are equal. -/
def same : Leaf → Leaf → Bool
  | .moment m, .moment m' => m.same m'
  | .pattern text, .pattern text' => text == text'
  | .failure mark _, .failure mark' _ => mark == mark'
  | .deferred mark, .deferred mark' => mark == mark'
  | .complex re im, .complex re' im' => re.amount = re'.amount && im.amount = im'.amount
  | .span micros, .span micros' => micros == micros'
  | .range stop, .range stop' => stop.toNat == stop'.toNat
  | .bare mark, .bare mark' => mark == mark'
  | .buffer form bytes, l' => readsLike (.buffer form bytes) l'
  | .window w bytes, l' => readsLike (.window w bytes) l'
  | _, _ => false

end Leaf

/-- Why a window has no equality to go by, and no written form instead. -/
def Window.refusal? (w : Window) : Option Refusal :=
  if w.released then some .released
  else if w.writable then some .writable
  else if w.format == .other then some .foreign
  else none

namespace Value

mutual

/-- Equality of values that can be compared. Sets are equal when they have the same members. -/
def same : Value → Value → Bool
  | .null, .null => true
  | .text s, .text s' => s == s'
  | .list form items, .list form' items' => form == form' && sameItems items items'
  | .set _ members, .set _ members' =>
    members.length == members'.length && sameMembers members members'
      && members'.all fun v' => isAmong members v'
  | v, v' =>
    match v.amount?, v'.amount? with
    | some amount, some amount' => amount = amount'
    | none, none =>
      match v, v' with
      | .leaf l, .leaf l' => l.same l'
      | _, _ => false
    | _, _ => false
termination_by structural v => v

/-- Equality item by item. -/
def sameItems : List Value → List Value → Bool
  | [], [] => true
  | v :: rest, v' :: rest' => same v v' && sameItems rest rest'
  | _, _ => false
termination_by structural items => items

/-- Whether every one of some members equals one of others. -/
def sameMembers : List Value → List Value → Bool
  | [], _ => true
  | v :: rest, members => members.any (same v) && sameMembers rest members
termination_by structural members => members

/-- Whether one of some members equals a value. -/
def isAmong : List Value → Value → Bool
  | [], _ => false
  | v :: rest, v' => same v v' || isAmong rest v'
termination_by structural members => members

end

/-- How a value is told from others: by equality, by its written form, or not at all. -/
inductive Mark where
  | equal (v : Value)
  | written (text : String)
  | refused (cause : Refusal)

/-- Maps, changing sets and bytes with the windows on them, signaling decimals and incomparable
values have no equality to go by; their written form stands in. -/
def mark : Value → Mark
  | .leaf (.window w bytes) =>
    match w.refusal? with
    | some cause => .refused cause
    | none =>
      if w.onChanging then .written (Leaf.inner (.window w bytes))
      else .equal (.leaf (.window w bytes))
  | .leaf (.buffer .changing bytes) => .written (Leaf.inner (.buffer .changing bytes))
  | .leaf .incomparable => .written (Leaf.inner .incomparable)
  | .number (.decimal .signaling) => .written (inner (.number (.decimal .signaling)))
  | .view form entries => .written (inner (.view form entries))
  | .map form entries => .written (inner (.map form entries))
  | .set .changing members => .written (inner (.set .changing members))
  | .list .list items => .written (inner (.list .list items))
  | v => .equal v

/-- The steps of telling a value from others, after so many calls: those of writing it where its
written form stands in. -/
def tellingSteps (height : Nat) (v : Value) : List Step :=
  match v.mark with
  | .equal _ => []
  | .written _ => v.innerSteps height
  | .refused cause => [.refusal cause]

/-- Whether two values are told apart by nothing. -/
def Mark.same : Mark → Mark → Bool
  | .equal v, .equal v' => v.same v'
  | .written s, .written s' => s == s'
  | _, _ => false

/-- Whether two leaves count as one value: they are of one kind and have one mark. -/
def alike (v v' : Value) : Bool := v.kind == v'.kind && v.mark.same v'.mark

/-- Whether a list holds two values that are told apart. -/
def holdsTwo : List Value → Bool
  | [] => false
  | v :: rest => rest.any fun v' => !v.alike v'

/-- A map from entries in order: an entry with a key that came before takes its place there. -/
def addEntry (key item : Value) : List (Value × Value) → List (Value × Value)
  | [] => [(key, item)]
  | (key', item') :: rest =>
    if same key' key then (key', item) :: rest else (key', item') :: addEntry key item rest

/-- The entries of a map that is filled in order. A key that comes again keeps its first form and
place and takes the last value. -/
def collapseEntries (entries : List (Value × Value)) : List (Value × Value) :=
  entries.foldl (fun done (key, item) => addEntry key item done) []

/-- The members of a set that is filled in order, each once, whole numbers first and ascending. -/
def collapseMembers (members : List Value) : List Value :=
  let distinct := members.foldl (fun done v => if done.any (same v) then done else done ++ [v]) []
  let int? : Value → Option Int
    | .number (.int n) => some n
    | _ => none
  let ints := distinct.filter fun v => (int? v).isSome
  ints.mergeSort (fun v v' => (int? v).getD 0 ≤ (int? v').getD 0)
    ++ distinct.filter fun v => (int? v).isNone

end Value

end SchemaInference
