import SchemaInference.Number.Digits

/-!
Refusals: what a value can fail with when it is written, told from others or looked into. Calls are
nested where values are, and a run has room for so many. What a piece of work comes to on its way is
a list of steps; the first of them that is refused ends it.
-/

namespace SchemaInference

/-- Why a value is refused: a whole number in it has too many digits to be written, it is nested too
deep, or it is a window on bytes that has no equality to go by, since the bytes can change through
it, since they are read in another format, or since the window has been closed. -/
inductive Refusal where
  | overlong
  | tooDeep
  | writable
  | foreign
  | released
  deriving DecidableEq, Repr

namespace Refusal

/-- What is said of a refusal. -/
def message : Refusal → String
  | .overlong =>
    "Exceeds the limit (" ++ toString Number.maxDigits
      ++ " digits) for integer string conversion; use sys.set_int_max_str_digits() to increase the"
      ++ " limit"
  | .tooDeep => "maximum recursion depth exceeded"
  | .writable => "cannot hash writable memoryview object"
  | .foreign => "memoryview: hashing is restricted to formats 'B', 'b' or 'c'"
  | .released => "operation forbidden on released memoryview object"

end Refusal

/-- How many calls may be nested, if that is bounded. -/
abbrev Room := Option Nat

/-- Whether so many calls may be nested. -/
def Room.fits (room : Room) (calls : Nat) : Bool := room.all (calls ≤ ·)

/-- A step on the way of some work: a call as the outermost but so many, or a refusal. -/
inductive Step where
  | call (height : Nat)
  | refusal (cause : Refusal)
  deriving DecidableEq, Repr

/-- The refusal that a step ends in, if it does. -/
def Step.refusal? (room : Room) : Step → Option Refusal
  | .call height => if room.fits height then none else some .tooDeep
  | .refusal cause => some cause

/-- The refusal of the first step that ends in one. -/
def Room.refusal? (room : Room) (steps : List Step) : Option Refusal :=
  steps.findSome? (Step.refusal? room)

/-- The room for nested calls that each kind of work finds when it begins. -/
structure Stack where
  /-- For lists and objects in each other when JSON is read. -/
  reading : Room := none
  /-- For writing the keys of maps when samples are collected. -/
  writing : Room := none
  /-- For writing values in the decision on a record at the root. -/
  telling : Room := none
  /-- For the positions in each other that a schema is made of. -/
  building : Room := none
  /-- For the schemas in each other that a document is checked against. -/
  checking : Room := none
  /-- For labels in each other, or the lists and objects in each other of JSON, that are printed. -/
  printing : Room := none
  deriving DecidableEq, Repr

/-- A stack that has room for all that fits in memory. -/
def Stack.ample : Stack := {}

namespace Room
variable {room : Room} {steps rest : List Step} {cause : Refusal}

@[simp] theorem fits_none (calls : Nat) : fits none calls = true := rfl

theorem fits_some {bound calls : Nat} : fits (some bound) calls = true ↔ calls ≤ bound := by
  simp [fits]

/-- Where calls fit, fewer do. -/
theorem fits_of_le {calls more : Nat} (fits : room.fits more = true) (fewer : calls ≤ more) :
    room.fits calls = true := by
  cases room with
  | none => rfl
  | some bound => exact fits_some.mpr (Nat.le_trans fewer (fits_some.mp fits))

/-- Where calls do not fit, more do not. -/
theorem not_fits_of_le {calls more : Nat} (unfit : room.fits calls = false) (fewer : calls ≤ more) :
    room.fits more = false :=
  Bool.eq_false_iff.mpr fun fits => Bool.eq_false_iff.mp unfit (fits_of_le fits fewer)

@[simp] theorem refusal?_nil : room.refusal? [] = none := rfl

theorem refusal?_append :
    room.refusal? (steps ++ rest) = (room.refusal? steps).or (room.refusal? rest) := by
  simp [refusal?, List.findSome?_append]

theorem refusal?_append_eq_none_iff : room.refusal? (steps ++ rest) = none ↔
    room.refusal? steps = none ∧ room.refusal? rest = none := by
  rw [refusal?_append, Option.or_eq_none_iff]

theorem refusal?_eq_none_iff :
    room.refusal? steps = none ↔ ∀ step ∈ steps, step.refusal? room = none := by
  simp [refusal?, List.findSome?_eq_none_iff]

theorem refusal?_flatMap_eq_none_iff {α : Type} {things : List α} {stepsOf : α → List Step} :
    room.refusal? (things.flatMap stepsOf) = none ↔
      ∀ thing ∈ things, room.refusal? (stepsOf thing) = none := by
  simp only [refusal?_eq_none_iff, List.mem_flatMap]
  exact ⟨fun none thing member step isStep => none step ⟨thing, member, isStep⟩,
    fun none step ⟨thing, member, isStep⟩ => none thing member step isStep⟩

/-- What is not refused in some room is not refused in an ample one. -/
theorem refusal?_ample (written : room.refusal? steps = none) : refusal? none steps = none := by
  refine refusal?_eq_none_iff.mpr fun step member => ?_
  have none := refusal?_eq_none_iff.mp written step member
  cases step with
  | call height => rfl
  | refusal cause => cases none

/-- The steps of some things in order are refused where those of one of the things are. -/
theorem exists_of_refusal?_flatMap {α : Type} {things : List α} {stepsOf : α → List Step}
    (refused : room.refusal? (things.flatMap stepsOf) = some cause) :
    ∃ thing ∈ things, room.refusal? (stepsOf thing) = some cause := by
  induction things with
  | nil => cases refused
  | cons thing others ih =>
    rw [List.flatMap_cons, refusal?_append] at refused
    cases first : room.refusal? (stepsOf thing) with
    | some _ =>
      rw [first] at refused
      exact ⟨thing, List.mem_cons_self, first.trans refused⟩
    | none =>
      rw [first, Option.none_or] at refused
      obtain ⟨other, among, found⟩ := ih refused
      exact ⟨other, List.mem_cons_of_mem _ among, found⟩

/-- A refusal is that of one of the steps. -/
theorem exists_of_refusal? (refused : room.refusal? steps = some cause) :
    ∃ step ∈ steps, step.refusal? room = some cause :=
  List.exists_of_findSome?_eq_some refused

end Room

/-- A step is refused for its own cause, or since the calls do not fit. -/
theorem Step.refusal?_eq_some_iff {room : Room} {step : Step} {cause : Refusal} :
    step.refusal? room = some cause ↔ step = .refusal cause ∨
      cause = .tooDeep ∧ ∃ height, step = .call height ∧ room.fits height = false := by
  cases step with
  | call height => cases fit : room.fits height <;> simp [refusal?, fit, eq_comm (a := cause)]
  | refusal other => simp [refusal?]

end SchemaInference
