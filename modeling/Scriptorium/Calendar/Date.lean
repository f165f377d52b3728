import Scriptorium.Text.Blank
import Scriptorium.Decimal.Read

/-!
# Dates

Dates of the Gregorian calendar over a bounded range of years, as a serial day number for arithmetic and
as text. `readStamp?` reads a date written as year, month and day without separators.
-/

namespace Scriptorium.Calendar

open Text Decimal

structure Date where
  year : Int
  month : Nat
  day : Nat
  deriving DecidableEq, Repr, Inhabited

/-- The first year of the calendar. -/
def firstYear : Int := -262143

/-- The last year of the calendar. -/
def lastYear : Int := 262142

def isLeapYear (y : Int) : Bool := y % 4 == 0 && (y % 100 != 0 || y % 400 == 0)

/-- The number of days of a month. -/
def daysIn (y : Int) (month : Nat) : Nat :=
  match month with
  | 2 => if isLeapYear y then 29 else 28
  | 4 | 6 | 9 | 11 => 30
  | _ => 31

/-- The days of a year before a month. -/
def daysBeforeMonth (y : Int) (month : Nat) : Nat :=
  ((List.range (month - 1)).map fun m => daysIn y (m + 1)).foldl (· + ·) 0

namespace Date

/-- Is it a day of the calendar? -/
def isValid (d : Date) : Bool :=
  firstYear ≤ d.year && d.year ≤ lastYear && 1 ≤ d.month && d.month ≤ 12 && 1 ≤ d.day &&
    d.day ≤ daysIn d.year d.month

/-- The number of the day, counted from the first of January of year 1. -/
def serial (d : Date) : Int :=
  let y := d.year - 1
  365 * y + y / 4 - y / 100 + y / 400 + daysBeforeMonth d.year d.month + d.day

/-- The month and day of a day of the year, both counted from nothing, with the months from one on. -/
def monthOf (y : Int) : Nat → Nat → Nat → Nat × Nat
  | 0, month, day => (month, day)
  | fuel + 1, month, day =>
    if day < daysIn y month then (month, day) else monthOf y fuel (month + 1) (day - daysIn y month)

/-- The date of a serial number. Four hundred years have 146097 days; within them every hundred years have
36524, every four 1461 and every year 365, and the days that are over belong to the last of them. -/
def ofSerial (serial : Int) : Date :=
  let day := serial - 1
  let inEra := (day % 146097).toNat
  let centuries := min 3 (inEra / 36524)
  let inCentury := inEra - 36524 * centuries
  let inFour := inCentury % 1461
  let years := min 3 (inFour / 365)
  let year := 400 * (day / 146097) + 100 * centuries + 4 * (inCentury / 1461 : Nat) + years + 1
  let (month, rest) := monthOf year 12 1 (inFour - 365 * years)
  ⟨year, month, rest + 1⟩

/-- The first day of the calendar. -/
def first : Date := ⟨firstYear, 1, 1⟩

/-- The serial number of the day so many days before the date, unless the calendar does not reach so
far. -/
def daysBefore? (d : Date) (n : Nat) : Option Int :=
  if first.serial ≤ d.serial - n then some (d.serial - n) else none

end Date

/-- A number with zeros in front up to a width. -/
def padded (width n : Nat) : String :=
  let ds := digits n
  String.ofList (List.replicate (width - ds.length) '0' ++ ds)

/-- A year: four digits, or a sign and at least four. -/
def yearText (y : Int) : String :=
  if 0 ≤ y ∧ y ≤ 9999 then padded 4 y.toNat
  else (if y < 0 then "-" else "+") ++ padded 4 y.natAbs

/-- A date without separators. -/
def stamp (d : Date) : String := yearText d.year ++ padded 2 d.month ++ padded 2 d.day

/-- A number of one up to `width` digits after blanks, and the rest of the text. -/
def readField? (width : Nat) (cs : List Char) : Option (Nat × List Char) :=
  let cs := trimStart cs
  let ds := (cs.take width).takeWhile Char.isDigit
  if ds.isEmpty then none else some (digitsValue ds, cs.drop ds.length)

/-- A year of up to four digits, or of any number of digits after a sign, and the rest of the text. -/
def readYear? (cs : List Char) : Option (Int × List Char) :=
  match trimStart cs with
  | sign :: rest =>
    if sign = '-' ∨ sign = '+' then
      let (ds, rest) := spanDigits rest
      if ds.isEmpty then none
      else
        let n : Int := digitsValue ds
        some (if sign = '-' then -n else n, rest)
    else (readField? 4 (sign :: rest)).map fun (n, rest) => ((n : Int), rest)
  | [] => none

/-- The date that the text writes as year, month and day. -/
def readStamp? (cs : List Char) : Option Date := do
  let (year, rest) ← readYear? cs
  let (month, rest) ← readField? 2 rest
  let (day, rest) ← readField? 2 rest
  let date : Date := ⟨year, month, day⟩
  if rest.isEmpty && date.isValid then some date else none

/-- A date with a time of day, down to microseconds. -/
structure Moment where
  date : Date
  hour : Nat := 0
  minute : Nat := 0
  second : Nat := 0
  micro : Nat := 0
  deriving DecidableEq, Repr, Inhabited

namespace Moment

/-- The moment so many microseconds after the beginning of 1970. -/
def ofUnixMicros (t : Int) : Moment :=
  let second := (t / 1000000) % 86400
  { date := .ofSerial (719163 + t / 86400000000)
    hour := (second / 3600).toNat
    minute := (second / 60 % 60).toNat
    second := (second % 60).toNat
    micro := (t % 1000000).toNat }

/-- The moment so many seconds after the beginning of 1970, if the calendar reaches so far. -/
def ofUnixSeconds? (t : Int) : Option Moment :=
  let m := ofUnixMicros (t * 1000000)
  if m.date.isValid then some m else none

/-- Date and time to the second. -/
def text (m : Moment) : String :=
  yearText m.date.year ++ "-" ++ padded 2 m.date.month ++ "-" ++ padded 2 m.date.day ++ " " ++
    padded 2 m.hour ++ ":" ++ padded 2 m.minute ++ ":" ++ padded 2 m.second

/-- Date and time in universal time, with the microseconds when there are some. -/
def isoText (m : Moment) : String :=
  yearText m.date.year ++ "-" ++ padded 2 m.date.month ++ "-" ++ padded 2 m.date.day ++ "T" ++
    padded 2 m.hour ++ ":" ++ padded 2 m.minute ++ ":" ++ padded 2 m.second ++
    (if m.micro = 0 then "" else "." ++ padded 6 m.micro) ++ "+00:00"

/-- Date and time, with the milliseconds cut off. -/
def textMillis (m : Moment) : String := m.text ++ "." ++ padded 3 (m.micro / 1000)

end Moment

end Scriptorium.Calendar
