import SchemaInference.Text.Blank

/-!
Log levels: numbers, most of them with names. A name that is not known stands for the usual level.
What is logged at a level is written if the level of the log is not above it.
-/

namespace SchemaInference

/-- A log level as it is asked for. -/
inductive LogLevel where
  | number (n : Int)
  | name (text : String)
  deriving DecidableEq, Repr

namespace LogLevel

/-- The names of levels. -/
def named : List (String × Int) :=
  [("CRITICAL", 50), ("FATAL", 50), ("ERROR", 40), ("WARN", 30), ("WARNING", 30), ("INFO", 20),
    ("DEBUG", 10), ("NOTSET", 0)]

/-- The level of a name that is not known. -/
def usual : Int := 20

/-- The capital of a letter. Two letters outside ASCII have capitals inside it. -/
def capital (c : Char) : Char :=
  if c = 'ı' then 'I' else if c = 'ſ' then 'S' else c.toUpper

/-- The number of a level; letter case does not count in a name. -/
def toInt : LogLevel → Int
  | .number n => n
  | .name text => (named.lookup (text.map capital)).getD usual

/-- What is written to: its level, and how many outlets it has. -/
structure Log where
  level : Int
  outlets : Nat
  deriving DecidableEq, Repr

/-- The log of a program that has not set one up. -/
def Log.initial : Log := ⟨30, 0⟩

/-- Sets the level of a log, and gives it an outlet if it has none. -/
def configure (log : Log) (level : LogLevel) : Log := ⟨level.toInt, max log.outlets 1⟩

/-- What is logged: who says it, at what level, and what. -/
structure Record where
  source : String
  level : Int
  message : String
  deriving DecidableEq, Repr

/-- A record on one line, after the time at which it was made. -/
def Record.line (time : String) (r : Record) : String :=
  let level := ((named.find? fun entry => entry.2 = r.level).map Prod.fst).getD (toString r.level)
  " - ".intercalate [time, r.source, level, r.message]

/-- The records that are written. -/
def Log.written (log : Log) (records : List Record) : List Record :=
  records.filter fun r => log.level ≤ r.level

end LogLevel

end SchemaInference
