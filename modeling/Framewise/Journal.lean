import Framewise.Number.Layout

/-!
# Log entries

What the program reports about its own work: an entry is a message and the part of the program
that it comes from. A log line shows the time of day before it, on a clock of twelve hours.

Moments are milliseconds since the epoch, given as doubles. The calendar reaches a hundred million
days to either side; a moment beyond it, or one that is no number, has no time of day.
-/

namespace Framewise

/-- An entry of the program's own log. -/
structure LogEntry where
  part : String
  message : String
deriving DecidableEq, Repr

/-- Two digits. -/
def twoDigits (n : Nat) : String :=
  String.ofList [Nat.digitChar (n / 10 % 10), Nat.digitChar (n % 10)]

/-- The time of day, in universal time, that so many milliseconds after the epoch fall on. -/
def timeOfDay (milliseconds : Int) : String :=
  let seconds := (milliseconds.fdiv 1000 % 86400).toNat
  let hour := seconds / 3600
  let shown := if hour % 12 = 0 then 12 else hour % 12
  Number.natText shown ++ ":" ++ twoDigits (seconds / 60 % 60) ++ ":" ++
    twoDigits (seconds % 60) ++ (if hour < 12 then " AM" else " PM")

/-- How many milliseconds before and after the epoch the calendar reaches. -/
def calendarReach : Nat := 8640000000000000

/-- The time of day of a moment, whose fraction of a millisecond is dropped. -/
def timeOfMoment? (moment : Float) : Option String :=
  ((Number.truncate? moment).filter (·.natAbs ≤ calendarReach)).map timeOfDay

/-- What stands for the time of a moment that has none. -/
def noTime : String := "Invalid Date"

namespace LogEntry

/-- The entry without the time. -/
def text (e : LogEntry) : String :=
  "[" ++ e.part ++ "] " ++ e.message

/-- The entry as a line of the log. -/
def line (e : LogEntry) (moment : Float) : String :=
  (timeOfMoment? moment).getD noTime ++ " " ++ e.text

end LogEntry

/-- What goes to the error output: entries, and texts without a time. -/
inductive Notice where
  | entry (e : LogEntry)
  | text (s : String)
deriving DecidableEq, Repr

example : timeOfDay 0 = "12:00:00 AM" ∧ timeOfDay (-1) = "11:59:59 PM" ∧
    timeOfDay 45296000 = "12:34:56 PM" := by decide +kernel

example : timeOfMoment? (-0.5) = some "12:00:00 AM" ∧ (timeOfMoment? 8640000000000000).isSome ∧
    timeOfMoment? 8640000000000001 = none ∧ timeOfMoment? Number.infinity = none := by
  decide +kernel

end Framewise
