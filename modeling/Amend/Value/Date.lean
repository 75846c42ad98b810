/-
Amend.Value.Date — calendar dates and moments that a settings file may hold.

Dates follow the Gregorian calendar from year 1 on. A moment adds a time of
day and, possibly, an offset from universal time of less than a day. Both
are only made by `Date.make` and `Moment.make`, which check their ranges.
-/
import Amend.Text.Symbol

namespace Amend

/-- A day of the calendar. -/
structure Date where
  year : Nat
  month : Nat
  day : Nat
  deriving DecidableEq, Repr

/-- A day and a time of day; `offset` is in seconds east of universal time. -/
structure Moment where
  date : Date
  hour : Nat
  minute : Nat
  second : Nat
  micro : Nat
  offset : Option Int
  deriving DecidableEq, Repr

/-- Why a date or a moment does not exist. -/
inductive CalendarError where
  | year (year : Nat)
  | month
  | day
  | hour
  | minute
  | second
  | offset (seconds : Int)
  deriving DecidableEq, Repr

/-- A number with zeros in front up to `width` digits. -/
def padded (width n : Nat) : String :=
  let s := Nat.repr n
  String.ofList (List.replicate (width - s.length) '0') ++ s

namespace Date

/-- Whether February has 29 days. -/
def isLeap (year : Nat) : Bool := year % 4 == 0 && (year % 100 != 0 || year % 400 == 0)

/-- The number of days of a month. -/
def monthLength (year month : Nat) : Nat :=
  if month = 2 then if isLeap year then 29 else 28
  else if month = 4 ∨ month = 6 ∨ month = 9 ∨ month = 11 then 30
  else 31

/-- The date, if it exists. -/
def make (year month day : Nat) : Except CalendarError Date :=
  if year = 0 ∨ 9999 < year then .error (.year year)
  else if month = 0 ∨ 12 < month then .error .month
  else if day = 0 ∨ monthLength year month < day then .error .day
  else .ok ⟨year, month, day⟩

/-- The date as year, month and day with dashes between. -/
def shown (d : Date) : String := padded 4 d.year ++ "-" ++ padded 2 d.month ++ "-" ++ padded 2 d.day

/-- The date as an expression. -/
def display (d : Date) : String := s!"datetime.date({d.year}, {d.month}, {d.day})"

end Date

/-- How many leap days there are in the years before a year. -/
def Date.leapDaysBefore (year : Nat) : Nat :=
  let y := year - 1
  y / 4 - y / 100 + y / 400

/-- How many days there are before a date since the year 1 began. -/
def Date.dayNumber (d : Date) : Nat :=
  let months := (List.range' 1 (d.month - 1)).foldl (fun n m => n + Date.monthLength d.year m) 0
  365 * (d.year - 1) + Date.leapDaysBefore d.year + months + (d.day - 1)

/-- The length of a day in seconds. -/
def daySeconds : Int := 86400

/-- A length of time as an expression in whole days and seconds. -/
def displayDelta (seconds : Int) : String :=
  let days := seconds.fdiv daySeconds
  let rest := seconds.fmod daySeconds
  let parts := (if days = 0 then [] else [s!"days={days}"]) ++
    (if rest = 0 then [] else [s!"seconds={rest}"])
  "datetime.timedelta(" ++ (if parts.isEmpty then "0" else ", ".intercalate parts) ++ ")"

namespace Moment

/-- The moment, if it exists. -/
def make (year month day hour minute second micro : Nat) (offset : Option Int) :
    Except CalendarError Moment :=
  match offset with
  | some o => if o ≤ -daySeconds ∨ daySeconds ≤ o then .error (.offset o) else build
  | none => build
where
  /-- The moment once its offset is known to be good. -/
  build : Except CalendarError Moment := do
    let date ← Date.make year month day
    if 23 < hour then throw .hour
    if 59 < minute then throw .minute
    if 59 < second then throw .second
    return ⟨date, hour, minute, second, micro, offset⟩

/-- The millionths of a second since the year 1 began, by the clock of the
moment. -/
def clockMicros (m : Moment) : Int :=
  (m.date.dayNumber * daySeconds + m.hour * 3600 + m.minute * 60 + m.second) * 1000000 + m.micro

/-- Whether two moments are the same. Moments with offsets are the same if
they are at the same universal time; one without an offset is not the same
as one with. -/
def same (m n : Moment) : Bool :=
  match m.offset, n.offset with
  | none, none => m.clockMicros == n.clockMicros
  | some o, some p => m.clockMicros - o * 1000000 == n.clockMicros - p * 1000000
  | _, _ => false

/-- The moment as date and time; a fraction only if there is one, an offset
only if it has one. -/
def shown (m : Moment) : String :=
  let time := padded 2 m.hour ++ ":" ++ padded 2 m.minute ++ ":" ++ padded 2 m.second
  let fraction := if m.micro = 0 then "" else "." ++ padded 6 m.micro
  let zone :=
    match m.offset with
    | none => ""
    | some o =>
      (if o < 0 then "-" else "+") ++ padded 2 (o.natAbs / 3600) ++ ":" ++
        padded 2 (o.natAbs / 60 % 60)
  m.date.shown ++ " " ++ time ++ fraction ++ zone

/-- The moment as an expression; seconds and fraction only if there are any. -/
def display (m : Moment) : String :=
  let fields := [m.date.year, m.date.month, m.date.day, m.hour, m.minute] ++
    (if m.micro = 0 then if m.second = 0 then [] else [m.second] else [m.second, m.micro])
  let zone :=
    match m.offset with
    | none => []
    | some 0 => ["tzinfo=datetime.timezone.utc"]
    | some o => ["tzinfo=datetime.timezone(" ++ displayDelta o ++ ")"]
  "datetime.datetime(" ++ ", ".intercalate (fields.map Nat.repr ++ zone) ++ ")"

end Moment

/-- What is wrong with a date, in words. -/
def CalendarError.message : CalendarError → String
  | year y => s!"year {y} is out of range"
  | month => "month must be in 1..12"
  | day => "day is out of range for month"
  | hour => "hour must be in 0..23"
  | minute => "minute must be in 0..59"
  | second => "second must be in 0..59"
  | offset o =>
    "offset must be a timedelta strictly between -timedelta(hours=24) and " ++
      "timedelta(hours=24), not " ++ displayDelta o ++ "."

end Amend
