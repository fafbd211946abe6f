/-! Days and moments of the Gregorian calendar, as settings can hold them. -/
namespace SourceOutline

structure Day where
  year : Nat
  month : Nat
  day : Nat
deriving DecidableEq, Repr

/-- A time of a day; `zone` is the offset from universal time in seconds, if it is known. -/
structure Moment where
  date : Day
  hour : Nat
  minute : Nat
  second : Nat
  micros : Nat := 0
  zone : Option Int := none
deriving DecidableEq, Repr

inductive CalendarFault where
  | year (n : Nat)
  | month
  | day
  | hour
  | minute
  | second
  | zone (seconds : Int)
deriving DecidableEq, Repr

namespace Calendar

/-- A number with zeros before it up to a width. -/
def padded (width n : Nat) : String :=
  let digits := Nat.toDigits 10 n
  String.ofList (List.replicate (width - digits.length) '0' ++ digits)

/-- A stretch of time by whole days and the seconds left over, both named unless they are zero. -/
def stretchText (seconds : Int) : String :=
  let days := Int.fdiv seconds 86400
  let rest := Int.fmod seconds 86400
  let parts := (if days = 0 then [] else [s!"days={days}"]) ++
    (if rest = 0 then [] else [s!"seconds={rest}"])
  let shown := if parts.isEmpty then "0" else ", ".intercalate parts
  s!"datetime.timedelta({shown})"

end Calendar

/-- What is said about numbers that are no day or moment. -/
def CalendarFault.message : CalendarFault → String
  | .year n => s!"year {n} is out of range"
  | .month => "month must be in 1..12"
  | .day => "day is out of range for month"
  | .hour => "hour must be in 0..23"
  | .minute => "minute must be in 0..59"
  | .second => "second must be in 0..59"
  | .zone seconds =>
    "offset must be a timedelta strictly between -timedelta(hours=24) and timedelta(hours=24), not " ++
      Calendar.stretchText seconds ++ "."

namespace Day

def isLeap (year : Nat) : Bool :=
  year % 4 == 0 && (year % 100 != 0 || year % 400 == 0)

def daysIn (year month : Nat) : Nat :=
  if month == 2 then (if isLeap year then 29 else 28)
  else if [4, 6, 9, 11].contains month then 30
  else 31

def of? (year month day : Nat) : Except CalendarFault Day :=
  if year = 0 || 9999 < year then .error (.year year)
  else if month = 0 || 12 < month then .error .month
  else if day = 0 || daysIn year month < day then .error .day
  else .ok ⟨year, month, day⟩

/-- Year, month and day with hyphens between them. -/
def iso (d : Day) : String :=
  s!"{Calendar.padded 4 d.year}-{Calendar.padded 2 d.month}-{Calendar.padded 2 d.day}"

/-- The days from the start of the year zero to a day. -/
def number (d : Day) : Nat :=
  let before := d.year - 1
  let months := (List.range (d.month - 1)).map fun k => daysIn d.year (k + 1)
  before * 365 + before / 4 - before / 100 + before / 400 + months.foldl (· + ·) 0 + d.day

def quoted (d : Day) : String :=
  s!"datetime.date({d.year}, {d.month}, {d.day})"

end Day

namespace Moment

/-- A zone less than a day from universal time. -/
def zoneOf? (seconds : Int) : Except CalendarFault Int :=
  if seconds ≤ -86400 || 86400 ≤ seconds then .error (.zone seconds) else .ok seconds

def of? (date : Except CalendarFault Day) (hour minute second micros : Nat) (zone : Option Int) :
    Except CalendarFault Moment := do
  let zone ← zone.mapM zoneOf?
  let date ← date
  if 23 < hour then .error .hour
  else if 59 < minute then .error .minute
  else if 59 < second then .error .second
  else .ok { date, hour, minute, second, micros, zone }

/-- The microseconds from the start of the calendar, by the clock of the moment's own zone. -/
def clock (m : Moment) : Int :=
  (((m.date.number * 24 + m.hour) * 60 + m.minute) * 60 + m.second) * 1000000 + m.micros

/-- Whether two moments are the same instant. Without a zone only the clock counts, and a moment with a
zone is never one without. -/
def sameInstant (m n : Moment) : Bool :=
  match m.zone, n.zone with
  | none, none => m.clock == n.clock
  | some a, some b => m.clock - a * 1000000 == n.clock - b * 1000000
  | _, _ => false

def zoneText (seconds : Int) : String :=
  let minutes := seconds.natAbs / 60
  let sign := if seconds < 0 then "-" else "+"
  s!"{sign}{Calendar.padded 2 (minutes / 60)}:{Calendar.padded 2 (minutes % 60)}"

/-- The day, the time and the zone, with the given separator after the day. -/
def iso (between : String) (m : Moment) : String :=
  let time := s!"{Calendar.padded 2 m.hour}:{Calendar.padded 2 m.minute}:{Calendar.padded 2 m.second}"
  let micros := if m.micros = 0 then "" else "." ++ Calendar.padded 6 m.micros
  m.date.iso ++ between ++ time ++ micros ++ (m.zone.map zoneText).getD ""

/-- The moment with its kind; seconds and microseconds are left out where they are zero. -/
def quoted (m : Moment) : String :=
  let small :=
    if m.micros ≠ 0 then [m.second, m.micros] else if m.second ≠ 0 then [m.second] else []
  let numbers := [m.date.year, m.date.month, m.date.day, m.hour, m.minute] ++ small
  let zone := match m.zone with
    | none => []
    | some 0 => ["tzinfo=datetime.timezone.utc"]
    | some seconds => [s!"tzinfo=datetime.timezone({Calendar.stretchText seconds})"]
  let shown := ", ".intercalate (numbers.map toString ++ zone)
  s!"datetime.datetime({shown})"

end Moment

end SourceOutline
