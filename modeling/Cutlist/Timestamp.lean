import Cutlist.Decimal.Fixed

/-!
# Points in time

A date and a time of day in the Gregorian calendar, with the distance of the
local clock from universal time. Two timestamps of one instant may differ in
that distance; `Timestamp.instant` forgets it.
-/

namespace Cutlist

namespace Calendar

def isLeap (year : Nat) : Bool :=
  year % 4 == 0 && (year % 100 != 0 || year % 400 == 0)

def daysInMonth (year month : Nat) : Nat :=
  if month == 2 then (if isLeap year then 29 else 28)
  else if month == 4 || month == 6 || month == 9 || month == 11 then 30
  else 31

def daysInYear (year : Nat) : Nat := if isLeap year then 366 else 365

/-- Days before the first of January; day 0 is the first of
January of year 1. -/
def daysBeforeYear (year : Nat) : Nat :=
  let y := year - 1
  y * 365 + y / 4 - y / 100 + y / 400

/-- Days of a year before the first of a month. -/
def daysBeforeMonth (year month : Nat) : Nat :=
  (List.range (month - 1)).foldl
    (fun days m => days + daysInMonth year (m + 1)) 0

/-- Days before a date. -/
def daysBefore (year month day : Nat) : Nat :=
  daysBeforeYear year + daysBeforeMonth year month + (day - 1)

/-- Month and day of the `n`-th day of a year, counted from zero. -/
def monthDay (year n : Nat) : Nat × Nat :=
  let months := (List.range 12).map (· + 1)
  let month :=
    ((months.reverse.find? fun m => daysBeforeMonth year m ≤ n)).getD 1
  (month, n - daysBeforeMonth year month + 1)

/-- The weekday of the first of January, from 0 for a Monday. -/
def firstWeekday (year : Nat) : Nat := daysBeforeYear year % 7

/-- A year has 53 weeks if it begins on a Thursday, or is a leap year that
begins on a Wednesday. -/
def weeksInYear (year : Nat) : Nat :=
  let first := firstWeekday year
  if first == 3 || (first == 2 && isLeap year) then 53 else 52

/-- The date of a day of a numbered week. Week 1 is the one with the first
Thursday of the year, so the date may lie in a neighbouring year. -/
def ofWeek (year week weekday : Nat) : Nat × Nat × Nat :=
  let first := firstWeekday year
  let monday : Int := (if first > 3 then 7 else 0) - (first : Int)
  let n : Int := monday + (week - 1 : Int) * 7 + (weekday - 1 : Int)
  if n < 0 then
    let (month, day) := monthDay (year - 1) (daysInYear (year - 1) + n).toNat
    (year - 1, month, day)
  else if n.toNat < daysInYear year then
    let (month, day) := monthDay year n.toNat
    (year, month, day)
  else
    let (month, day) := monthDay (year + 1) (n.toNat - daysInYear year)
    (year + 1, month, day)

end Calendar

namespace Timestamp

/-- Microseconds in a day. -/
def dayMicros : Nat := 86400 * 1000000

/-- What holds of the parts of a timestamp. -/
structure InRange (year month day hour minute second micro : Nat)
    (offset : Int) : Prop where
  year_pos : 1 ≤ year
  year_le : year ≤ 9999
  month_pos : 1 ≤ month
  month_le : month ≤ 12
  day_pos : 1 ≤ day
  day_le : day ≤ Calendar.daysInMonth year month
  hour_lt : hour < 24
  minute_lt : minute < 60
  second_lt : second < 60
  micro_lt : micro < 1000000
  offset_lt : offset.natAbs < dayMicros

end Timestamp

/-- A date and time of day, with the microseconds by which the local clock is
ahead of universal time. -/
structure Timestamp where
  year : Nat
  month : Nat
  day : Nat
  hour : Nat
  minute : Nat
  second : Nat
  micro : Nat
  offset : Int
  inRange : Timestamp.InRange year month day hour minute second micro offset
  deriving DecidableEq

namespace Timestamp

/-- The beginning of year 1 in universal time. -/
instance : Inhabited Timestamp :=
  ⟨⟨1, 1, 1, 0, 0, 0, 0, 0, ⟨by decide, by decide, by decide, by decide,
    by decide, by decide, by decide, by decide, by decide, by decide,
    by decide⟩⟩⟩

/-- Microseconds of universal time since the beginning of year 1. -/
def instant (t : Timestamp) : Int :=
  let days := Calendar.daysBefore t.year t.month t.day
  let seconds := ((days * 24 + t.hour) * 60 + t.minute) * 60 + t.second
  (seconds * 1000000 + t.micro : Nat) - t.offset

open Decimal

/-- A point and six digits, unless there are no microseconds. -/
def microText (micro : Nat) : List Char :=
  if micro = 0 then [] else '.' :: padded 6 micro

/-- The distance from universal time: seconds only when they are needed. -/
def offsetText (offset : Int) : List Char :=
  let n := offset.natAbs
  let seconds := n / 1000000
  let micro := n % 1000000
  (if offset < 0 then '-' else '+') :: padded 2 (seconds / 3600)
    ++ ':' :: padded 2 (seconds / 60 % 60)
    ++ (if seconds % 60 = 0 ∧ micro = 0 then []
        else ':' :: padded 2 (seconds % 60) ++ microText micro)

/-- The characters of a timestamp, the date and the time joined by a `T`. -/
def chars (t : Timestamp) : List Char :=
  padded 4 t.year ++ '-' :: padded 2 t.month ++ '-' :: padded 2 t.day
    ++ 'T' :: padded 2 t.hour ++ ':' :: padded 2 t.minute
    ++ ':' :: padded 2 t.second
    ++ microText t.micro ++ offsetText t.offset

def toText (t : Timestamp) : String := String.ofList t.chars

/-- The date and time without marks, as file names carry it:
`20240131_180500`. -/
def stamp (t : Timestamp) : String :=
  String.ofList (digits t.year ++ padded 2 t.month ++ padded 2 t.day
    ++ '_' :: padded 2 t.hour ++ padded 2 t.minute ++ padded 2 t.second)

/-- The date and time to the millisecond, as journals carry it:
`2024-01-31 18:05:00,250`. -/
def journalText (t : Timestamp) : String :=
  String.ofList (padded 4 t.year ++ '-' :: padded 2 t.month
    ++ '-' :: padded 2 t.day
    ++ ' ' :: padded 2 t.hour ++ ':' :: padded 2 t.minute
    ++ ':' :: padded 2 t.second
    ++ ',' :: padded 3 (t.micro / 1000))

end Timestamp

end Cutlist
