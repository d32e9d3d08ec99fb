import SchemaInference.Number
import SchemaInference.Moment

/-!
Document values. Lists and plain maps have parts that take part in inference; every other value is
a leaf, whatever it holds. Each value is of one of thirteen kinds, and its kind is all that
inference and checking see of a leaf, enumerated texts apart.
-/

namespace SchemaInference

/-- A list, or a tuple of fixed length. Both read as lists. -/
inductive ListForm where
  | list
  | tuple
  deriving DecidableEq, Repr

/-- A plain map, or one that keeps an order of its own. Both read as maps. -/
inductive MapForm where
  | plain
  | ordered
  deriving DecidableEq, Repr

/-- A mapping that is no plain map: a read-only window, or a wrapper. -/
inductive ViewForm where
  | readOnly
  | wrapper
  deriving DecidableEq, Repr

/-- A set that may change, or a frozen one. -/
inductive SetForm where
  | changing
  | frozen
  deriving DecidableEq, Repr

/-- Bytes that are fixed, or that may change. -/
inductive BufferForm where
  | fixed
  | changing
  deriving DecidableEq, Repr

/-- What a window reads bytes as: numbers from zero, numbers around zero, single bytes, or items of
another kind. -/
inductive WindowFormat where
  | unsigned
  | signed
  | single
  | other
  deriving DecidableEq, Repr

/-- A window on bytes. Through one that is writable the bytes can be changed; a window on bytes that
may change anyway does not have to be. One that has been released shows nothing any more. -/
structure Window where
  mark : Nat
  format : WindowFormat := .unsigned
  writable : Bool := false
  onChanging : Bool := false
  released : Bool := false
  deriving DecidableEq, Repr

/-- What a byte is read as: a number, or a byte alone. Items of another kind are not read. -/
def WindowFormat.reading? : WindowFormat → UInt8 → Option (Int ⊕ UInt8)
  | .unsigned, b => some (.inl b.toNat)
  | .signed, b => some (.inl (if b < 128 then b.toNat else b.toNat - 256))
  | .single, b => some (.inr b)
  | .other, _ => none

/-- A leaf without parts. A value with a mark equals only the value with the same mark. -/
inductive Leaf where
  | moment (m : Moment)
  | pattern (text : String)
  | failure (mark : Nat) (text : String)
  | deferred (mark : Nat)
  | buffer (form : BufferForm) (bytes : List UInt8)
  | window (w : Window) (bytes : List UInt8)
  | fraction (q : Rat)
  | complex (re im : Binary64)
  | span (micros : Int)
  | range (stop : Int)
  | bare (mark : Nat)
  | incomparable
  deriving DecidableEq, Repr

/-- A document value. -/
inductive Value where
  | null
  | bool (b : Bool)
  | number (n : Number)
  | text (s : String)
  | list (form : ListForm) (items : List Value)
  | map (form : MapForm) (entries : List (Value × Value))
  | view (form : ViewForm) (entries : List (Value × Value))
  | set (form : SetForm) (members : List Value)
  | leaf (l : Leaf)
  deriving Inhabited

/-- The kinds of values. -/
inductive Kind where
  | null
  | boolean
  | number
  | string
  | array
  | object
  | date
  | regexp
  | error
  | map
  | set
  | deferred
  | buffer
  deriving DecidableEq, Repr

/-- The tag of a kind, as labels and schemas spell it. -/
def Kind.tag : Kind → String
  | .null => "null"
  | .boolean => "boolean"
  | .number => "number"
  | .string => "string"
  | .array => "array"
  | .object => "object"
  | .date => "date"
  | .regexp => "regexp"
  | .error => "error"
  | .map => "map"
  | .set => "set"
  | .deferred => "deferred"
  | .buffer => "buffer"

theorem Kind.tag_injective {a b : Kind} (same : a.tag = b.tag) : a = b := by
  revert same; cases a <;> cases b <;> decide

/-- The kind of a leaf. -/
def Leaf.kind : Leaf → Kind
  | .moment _ => .date
  | .pattern _ => .regexp
  | .failure .. => .error
  | .deferred _ => .deferred
  | .buffer .. | .window .. => .buffer
  | .fraction _ | .complex .. | .span _ | .range _ | .bare _ | .incomparable => .object

namespace Value

/-- The kind of a value. A plain map is an object, and so is a leaf of no other kind. -/
def kind : Value → Kind
  | .null => .null
  | .bool _ => .boolean
  | .number _ => .number
  | .text _ => .string
  | .list .. => .array
  | .map .. => .object
  | .view .. => .map
  | .set .. => .set
  | .leaf l => l.kind

/-- The tag of a value's kind. -/
def tag (v : Value) : String := v.kind.tag

/-- Whether a value is null. -/
def isNull : Value → Bool
  | .null => true
  | _ => false

/-- Whether a value is a list or a tuple. -/
def isList : Value → Bool
  | .list .. => true
  | _ => false

/-- Whether a value is a plain map, with an order of its own or without. -/
def isMap : Value → Bool
  | .map .. => true
  | _ => false

/-- The text that a string is. -/
def text? : Value → Option String
  | .text s => some s
  | _ => none

/-- The items of a list. -/
def items? : Value → Option (List Value)
  | .list _ items => some items
  | _ => none

theorem kind_eq_null_iff {v : Value} : v.kind = .null ↔ v = .null := by
  cases v <;> simp [kind]
  rename_i l; cases l <;> simp [Leaf.kind]

theorem kind_eq_array_iff {v : Value} : v.kind = .array ↔ v.isList = true := by
  cases v <;> simp [kind, isList]
  rename_i l; cases l <;> simp [Leaf.kind]

end Value

end SchemaInference
