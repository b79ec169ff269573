
/-!
# Dates and RFC 3339

The calendar date of a day, and `time.Time.Format` with the layout `time.RFC3339` for a time in UTC. A time
is a number of nanoseconds since the epoch, 1 January 1970.
-/

namespace Rfc3339

/-- A date of the calendar. -/
structure Date where
  year : Int
  month : Int
  day : Int
deriving DecidableEq

/-- The date of a day, counted from the epoch. Years begin in March and repeat in eras of 400 years. -/
def dateOf (days : Int) : Date :=
  let shifted := days + 719468
  let era := shifted / 146097
  let dayOfEra := shifted % 146097
  let yearOfEra := (dayOfEra - dayOfEra / 1460 + dayOfEra / 36524 - dayOfEra / 146096) / 365
  let dayOfYear := dayOfEra - (365 * yearOfEra + yearOfEra / 4 - yearOfEra / 100)
  let monthOfYear := (5 * dayOfYear + 2) / 153
  let month := if monthOfYear < 10 then monthOfYear + 3 else monthOfYear - 9
  { year := yearOfEra + era * 400 + if month ≤ 2 then 1 else 0
    month := month
    day := dayOfYear - (153 * monthOfYear + 2) / 5 + 1 }

/-- `appendInt`: the number with at least `width` digits. -/
def appendInt (x : Int) (width : Nat) : String :=
  let digits := toString x.natAbs
  (if x < 0 then "-" else "") ++ String.ofList (List.replicate (width - digits.length) '0') ++ digits

/-- `t.UTC().Format(time.RFC3339)`. -/
def format (t : Int) : String :=
  let seconds := t / 1000000000
  let date := dateOf (seconds / 86400)
  let clock := seconds % 86400
  appendInt date.year 4 ++ "-" ++ appendInt date.month 2 ++ "-" ++ appendInt date.day 2 ++ "T" ++
    appendInt (clock / 3600) 2 ++ ":" ++ appendInt (clock / 60 % 60) 2 ++ ":" ++
    appendInt (clock % 60) 2 ++ "Z"

example : format 1709164799000000000 = "2024-02-28T23:59:59Z" := by decide

end Rfc3339
