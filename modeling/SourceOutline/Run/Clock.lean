import SourceOutline.Datum.Moment
import SourceOutline.Number.Shortest
import SourceOutline.Run.Basic

/-! Times as reports and log lines show them. -/
namespace SourceOutline

/-- The day that comes a number of days after the first of January 1970. Years are counted from March
on, in spans of 400 years, so that a leap day is the last day of its year. -/
def Day.ofNumber (days : Nat) : Day :=
  let shifted := days + 719468
  let inSpan := shifted % 146097
  let yearOfSpan := (inSpan - inSpan / 1460 + inSpan / 36524 - inSpan / 146096) / 365
  let inYear := inSpan - (365 * yearOfSpan + yearOfSpan / 4 - yearOfSpan / 100)
  let fromMarch := (5 * inYear + 2) / 153
  let month := if fromMarch < 10 then fromMarch + 3 else fromMarch - 9
  { year := yearOfSpan + 400 * (shifted / 146097) + if month ≤ 2 then 1 else 0
    month := month
    day := inYear - (153 * fromMarch + 2) / 5 + 1 }

/-- The moment, in universal time, that comes some seconds after the start of 1970. -/
def Moment.ofSeconds (seconds micros : Nat) : Moment :=
  let inDay := seconds % 86400
  { date := Day.ofNumber (seconds / 86400), hour := inDay / 3600, minute := inDay / 60 % 60
    second := inDay % 60, micros := micros, zone := some 0 }

namespace Run

/-- A moment as log lines show it: without its zone, to the millisecond. -/
def logTime (m : Moment) : String :=
  let plain := { m with micros := 0, zone := none }
  plain.iso " " ++ "," ++ Calendar.padded 3 (m.micros / 1000)

/-- A stretch of time in seconds with two places. -/
def inHundredths (millis : Nat) : String :=
  let hundredths := (millis + 5) / 10
  s!"{hundredths / 100}.{Calendar.padded 2 (hundredths % 100)}"

/-- A host whose clock shows a moment, and to which scanning takes the time given. -/
def Host.ofClock (now : Moment) (millis : Nat) (freshId : Nat → String) : Host :=
  { freshId := freshId
    timestamp := now.iso "T"
    seconds := .decimal (Number.floatText (Float.ofScientific millis true 3))
    shortSeconds := inHundredths millis }

end Run

end SourceOutline
