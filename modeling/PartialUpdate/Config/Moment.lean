/-!
Dates and times of day, apart or together. A date with a time may have an offset from universal
time, in minutes.
-/

set_option autoImplicit false

namespace PartialUpdate

structure Date where
  year : Nat
  month : Nat
  day : Nat
  deriving DecidableEq

structure Time where
  hour : Nat
  minute : Nat
  second : Nat
  microsecond : Nat
  deriving DecidableEq

inductive Moment where
  | date (date : Date)
  | time (time : Time)
  | both (date : Date) (time : Time) (offset : Option Int)
  deriving DecidableEq

namespace Date

def isLeapYear (year : Nat) : Bool :=
  year % 4 = 0 && (year % 100 ≠ 0 || year % 400 = 0)

def daysInMonth (year month : Nat) : Nat :=
  if month = 2 then if isLeapYear year then 29 else 28
  else if [4, 6, 9, 11].contains month then 30
  else 31

/-- Whether there is such a day. Years begin with one. -/
def isValid (date : Date) : Bool :=
  1 ≤ date.year && 1 ≤ date.month && date.month ≤ 12 && 1 ≤ date.day &&
    date.day ≤ daysInMonth date.year date.month

end Date

namespace Moment

/-- The parts of a time in messages: seconds only from the first that is not zero from the end. -/
def timeParts (time : Time) : List Nat :=
  [time.hour, time.minute] ++
    (if time.microsecond ≠ 0 then [time.second, time.microsecond]
     else if time.second ≠ 0 then [time.second] else [])

def dateParts (date : Date) : List Nat := [date.year, date.month, date.day]

def numbers (parts : List Nat) : String := ", ".intercalate (parts.map toString)

/-- An offset in messages: whole days and the seconds past them. -/
def displayOffset (minutes : Int) : String :=
  if minutes = 0 then "datetime.timezone.utc"
  else if minutes < 0 then
    s!"datetime.timezone(datetime.timedelta(days=-1, seconds={(1440 + minutes) * 60}))"
  else s!"datetime.timezone(datetime.timedelta(seconds={minutes * 60}))"

def display : Moment → String
  | date d => s!"datetime.date({numbers (dateParts d)})"
  | time t => s!"datetime.time({numbers (timeParts t)})"
  | both d t none => s!"datetime.datetime({numbers (dateParts d ++ timeParts t)})"
  | both d t (some offset) =>
    s!"datetime.datetime({numbers (dateParts d ++ timeParts t)}, tzinfo={displayOffset offset})"

end Moment
end PartialUpdate
