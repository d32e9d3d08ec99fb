import SchemaInference.Number.Digits

/-!
Calendar dates, times of day, and both together. Two moments with an offset from universal time are
the same when they are the same instant; a moment with an offset is never one without.
-/

namespace SchemaInference

open Number

/-- A day of the Gregorian calendar. -/
structure Day where
  year : Nat
  month : Nat
  day : Nat
  deriving DecidableEq, Repr

/-- A time of day to the microsecond. -/
structure Clock where
  hour : Nat
  minute : Nat
  second : Nat
  micro : Nat
  deriving DecidableEq, Repr

/-- A date, a time of day, or a date with a time. An offset from universal time is in seconds. -/
inductive Moment where
  | date (day : Day)
  | time (clock : Clock) (offset : Option Int)
  | dateTime (day : Day) (clock : Clock) (offset : Option Int)
  deriving DecidableEq, Repr

namespace Day

/-- The number of the day, counted from the first of March of year zero. -/
def number (d : Day) : Nat :=
  let year := if d.month ≤ 2 then d.year - 1 else d.year
  let month := if d.month ≤ 2 then d.month + 9 else d.month - 3
  365 * year + year / 4 - year / 100 + year / 400 + (153 * month + 2) / 5 + d.day

/-- The text of a day: four, two and two digits. -/
def text (d : Day) : String :=
  String.ofList (padLeft 4 (toDigits d.year) ++ '-' :: padLeft 2 (toDigits d.month)
    ++ '-' :: padLeft 2 (toDigits d.day))

end Day

namespace Clock

/-- The microseconds since midnight. -/
def micros (t : Clock) : Nat := ((t.hour * 60 + t.minute) * 60 + t.second) * 1000000 + t.micro

/-- The text of a time of day; six digits for microseconds follow where there are any. -/
def text (t : Clock) : String :=
  String.ofList (padLeft 2 (toDigits t.hour) ++ ':' :: padLeft 2 (toDigits t.minute)
    ++ ':' :: padLeft 2 (toDigits t.second)
    ++ if t.micro = 0 then [] else '.' :: padLeft 6 (toDigits t.micro))

end Clock

namespace Moment

/-- The offset of a moment from universal time. -/
def offset? : Moment → Option Int
  | .date _ => none
  | .time _ offset | .dateTime _ _ offset => offset

/-- What tells one moment from another: with an offset the instant, without one the fields. -/
def instant (day : Option Day) (clock : Clock) (offset : Int) : Int :=
  ((day.map Day.number).getD 0 : Int) * 86400000000 + clock.micros - offset * 1000000

/-- Whether two moments are the same one. -/
def same : Moment → Moment → Bool
  | .date d, .date d' => d == d'
  | .time t none, .time t' none => t == t'
  | .time t (some o), .time t' (some o') => instant none t o == instant none t' o'
  | .dateTime d t none, .dateTime d' t' none => d == d' && t == t'
  | .dateTime d t (some o), .dateTime d' t' (some o') =>
    instant (some d) t o == instant (some d') t' o'
  | _, _ => false

/-- The text of an offset: a sign, hours and minutes, and seconds where there are any. -/
def offsetText : Option Int → String
  | none => ""
  | some o =>
    let seconds := o.natAbs
    let pair (n : Nat) := padLeft 2 (toDigits n)
    String.ofList ((if o < 0 then '-' else '+') :: pair (seconds / 3600)
      ++ ':' :: pair (seconds / 60 % 60)
      ++ if seconds % 60 = 0 then [] else ':' :: pair (seconds % 60))

/-- The text of a moment in the international order, a blank between date and time. -/
def text : Moment → String
  | .date d => d.text
  | .time t offset => t.text ++ offsetText offset
  | .dateTime d t offset => d.text ++ " " ++ t.text ++ offsetText offset

/-- Fields as a call that makes the moment lists them: the second and the microsecond are left out
when they and all after them are zero. -/
def clockFields (t : Clock) : List String :=
  let fields := [t.hour, t.minute, t.second, t.micro]
  let kept :=
    if t.micro = 0 then (if t.second = 0 then fields.take 2 else fields.take 3) else fields
  kept.map toString

/-- The offset as a call that makes the moment lists it. Zero has a name of its own. -/
def zoneFields : Option Int → List String
  | none => []
  | some 0 => ["tzinfo=datetime.timezone.utc"]
  | some o =>
    let days := o.fdiv 86400
    let seconds := o.fmod 86400
    let span := (if days = 0 then [] else ["days=" ++ toString days])
      ++ (if seconds = 0 then [] else ["seconds=" ++ toString seconds])
    ["tzinfo=datetime.timezone(datetime.timedelta(" ++ ", ".intercalate span ++ "))"]

/-- The text of a moment as the call that makes it, which is how it stands inside other values. -/
def callText : Moment → String
  | .date d => "datetime.date(" ++ ", ".intercalate ([d.year, d.month, d.day].map toString) ++ ")"
  | .time t offset =>
    "datetime.time(" ++ ", ".intercalate (clockFields t ++ zoneFields offset) ++ ")"
  | .dateTime d t offset =>
    "datetime.datetime(" ++ ", ".intercalate ([d.year, d.month, d.day].map toString
      ++ clockFields t ++ zoneFields offset) ++ ")"

/-- A row of exactly `width` digits at the front. -/
def digits? (width : Nat) (cs : List Char) : Option (Nat × List Char) :=
  let row := cs.take width
  if row.length = width && row.all isDigit then some (ofDigits row, cs.drop width) else none

/-- A day at the front, with dashes between its parts or without any. -/
def dayOf? (cs : List Char) : Option (Day × List Char) := do
  let (year, rest) ← digits? 4 cs
  match rest with
  | '-' :: rest =>
    let (month, rest) ← digits? 2 rest
    match rest with
    | '-' :: rest =>
      let (day, rest) ← digits? 2 rest
      some (⟨year, month, day⟩, rest)
    | _ => none
  | _ =>
    let (month, rest) ← digits? 2 rest
    let (day, rest) ← digits? 2 rest
    some (⟨year, month, day⟩, rest)

/-- Minutes, seconds and a fraction may be left out from the right; a colon stands between the
parts. Digits of the fraction after the sixth are dropped. -/
def clockOf? (cs : List Char) : Option (Clock × List Char) := do
  let (hour, rest) ← digits? 2 cs
  match rest with
  | ':' :: more =>
    let (minute, rest) ← digits? 2 more
    match rest with
    | ':' :: more =>
      let (second, rest) ← digits? 2 more
      match rest with
      | '.' :: more =>
        let row := more.takeWhile isDigit
        let six := row.take 6
        let micro := ofDigits six * Nat.pow 10 (6 - six.length)
        some (⟨hour, minute, second, micro⟩, more.dropWhile isDigit)
      | rest => some (⟨hour, minute, second, 0⟩, rest)
    | rest => some (⟨hour, minute, 0, 0⟩, rest)
  | rest => some (⟨hour, 0, 0, 0⟩, rest)

/-- The offset that ends a text: nothing, `Z`, or a signed clock time. -/
def offsetOf? : List Char → Option (Option Int)
  | [] => some none
  | ['Z'] => some (some 0)
  | '+' :: rest => match clockOf? rest with
    | some (t, []) => some (some (t.micros / 1000000 : Nat))
    | _ => none
  | '-' :: rest => match clockOf? rest with
    | some (t, []) => some (some (-(t.micros / 1000000 : Nat)))
    | _ => none
  | _ => none

/-- The date that a text is. -/
def dateOfText? (s : String) : Option Moment :=
  match dayOf? s.toList with
  | some (d, []) => some (.date d)
  | _ => none

/-- The time of day that a text is. -/
def timeOfText? (s : String) : Option Moment := do
  let (t, rest) ← clockOf? s.toList
  let offset ← offsetOf? rest
  some (.time t offset)

/-- A date alone is midnight; else one character of any kind stands between date and time. -/
def dateTimeOfText? (s : String) : Option Moment := do
  let (d, rest) ← dayOf? s.toList
  match rest with
  | [] => some (.dateTime d ⟨0, 0, 0, 0⟩ none)
  | _ :: rest =>
    let (t, rest) ← clockOf? rest
    let offset ← offsetOf? rest
    some (.dateTime d t offset)

end Moment

end SchemaInference
