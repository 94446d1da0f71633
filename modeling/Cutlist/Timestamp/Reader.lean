import Cutlist.Timestamp
import Cutlist.Text.Quoted

/-!
# Reading a timestamp

A date is written with or without hyphens, by month and day or by week and
weekday. Any one character may stand before the time. The time has hours, then
minutes, then seconds, with or without colons, and a fraction of which six
digits count. The distance from universal time follows a sign and is written
like a time; without one the time is universal.
-/

namespace Cutlist.Timestamp

/-- Why a text is no timestamp. -/
inductive Fault where
  | malformed (text : String)
  | offset (micros : Int)
  | year (n : Nat)
  | month
  | day
  | hour
  | minute
  | second
  deriving DecidableEq

/-- A span of time in days, seconds and microseconds, of which only the
days may be negative. -/
def spanText (micros : Int) : String :=
  let days := micros / dayMicros
  let rest := micros % dayMicros
  let part := fun (name : String) (n : Int) =>
    if n = 0 then [] else [s!"{name}={n}"]
  let parts :=
    part "days" days ++ part "seconds" (rest / 1000000)
      ++ part "microseconds" (rest % 1000000)
  "datetime.timedelta(" ++ ", ".intercalate parts ++ ")"

def Fault.message : Fault → String
  | .malformed text => "Invalid isoformat string: " ++ Text.quoted text
  | .offset micros =>
      "offset must be a timedelta strictly between -timedelta(hours=24) and "
        ++ s!"timedelta(hours=24), not {spanText micros}."
  | .year n => s!"year {n} is out of range"
  | .month => "month must be in 1..12"
  | .day => "day is out of range for month"
  | .hour => "hour must be in 0..23"
  | .minute => "minute must be in 0..59"
  | .second => "second must be in 0..59"

namespace Reader

/-- The value of `count` ASCII digits. -/
def digits? : Nat → List Char → Option (Nat × List Char)
  | 0, cs => some (0, cs)
  | count + 1, c :: r =>
      if c.isDigit then
        (digits? count r).map fun (n, rest) =>
          ((c.toNat - '0'.toNat) * Nat.pow 10 count + n, rest)
      else none
  | _ + 1, [] => none

/-- The weekday after a week without hyphens. Of two or more digits the
first is the weekday only if their number is even, so that the rest can be a
time with a separator. -/
def bareWeekday (cs : List Char) : Option (Nat × List Char) :=
  let run := (cs.takeWhile Char.isDigit).length
  if run == 1 || (run != 0 && run % 2 == 0) then digits? 1 cs else some (1, cs)

/-- The weekday after a week with hyphens. A hyphen before two characters of
which the second is a digit separates date and time. -/
def hyphenWeekday : List Char → Option (Nat × List Char)
  | '-' :: c :: d :: r =>
      if d.isDigit then some (1, '-' :: c :: d :: r)
      else digits? 1 (c :: d :: r)
  | '-' :: r => digits? 1 r
  | cs => some (1, cs)

/-- The date of a week and weekday, if the year has that week. -/
def weekDate? (year week weekday : Nat) : Option (Nat × Nat × Nat) :=
  if 1 ≤ year ∧ 1 ≤ week ∧ week ≤ Calendar.weeksInYear year
      ∧ 1 ≤ weekday ∧ weekday ≤ 7 then
    some (Calendar.ofWeek year week weekday)
  else none

/-- Year, month and day at the beginning of a text. Month and day
are not checked. -/
def date? (cs : List Char) : Option ((Nat × Nat × Nat) × List Char) := do
  let (year, r) ← digits? 4 cs
  match r with
  | '-' :: 'W' :: r =>
      let (week, r) ← digits? 2 r
      let (weekday, r) ← hyphenWeekday r
      return (← weekDate? year week weekday, r)
  | 'W' :: r =>
      let (week, r) ← digits? 2 r
      let (weekday, r) ← bareWeekday r
      return (← weekDate? year week weekday, r)
  | '-' :: r =>
      let (month, r) ← digits? 2 r
      match r with
      | '-' :: r =>
          let (day, r) ← digits? 2 r
          return ((year, month, day), r)
      | _ => none
  | r =>
      let (month, r) ← digits? 2 r
      let (day, r) ← digits? 2 r
      return ((year, month, day), r)

/-- A time of day, or a distance from universal time, as it is written. -/
structure Clock where
  hour : Nat
  minute : Nat
  second : Nat
  micro : Nat

def Clock.micros (c : Clock) : Nat :=
  ((c.hour * 60 + c.minute) * 60 + c.second) * 1000000 + c.micro

/-- The microseconds of a fraction, and what follows its digits. -/
def fraction? (cs : List Char) : Option (Nat × List Char) := do
  let count := min cs.length 6
  let (n, r) ← digits? count cs
  return (n * Nat.pow 10 (6 - count), r.dropWhile Char.isDigit)

/-- The parts of a time, from the hours on, and what is left over. `parts` are
the values read before; `colons` says whether colons stand between them. A
single last ASCII character after a part is left over whatever it is. -/
def clockParts? (colons : Bool) :
    Nat → List Nat → List Char → Option (List Nat × Nat × List Char)
  | 0, parts, cs => do
      let (micro, rest) ← fraction? cs
      return (parts, micro, rest)
  | count + 1, parts, cs => do
      let (n, r) ← digits? 2 cs
      let parts := parts ++ [n]
      match r with
      | [] => return (parts, 0, [])
      | [c] => if c.toNat < 128 then return (parts, 0, [c]) else none
      | c :: r' =>
          let colons := if parts.length == 1 then c == ':' else colons
          if colons && c == ':' then clockParts? colons count parts r'
          else if c == '.' || c == ',' then
            let (micro, rest) ← fraction? r'
            return (parts, micro, rest)
          else if colons then none
          else clockParts? colons count parts r

/-- A time with what is left over after it. -/
def clock? (cs : List Char) : Option (Clock × List Char) := do
  let (parts, micro, rest) ← clockParts? false 3 [] cs
  return (⟨parts.getD 0 0, parts.getD 1 0, parts.getD 2 0, micro⟩, rest)

/-- Nothing but perhaps a null character stands at the end. -/
def atEnd (cs : List Char) : Bool := cs.head?.all (· == '\x00')

/-- The time of day and the distance from universal time in microseconds. What a
time leaves over before a sign is passed over. -/
def time? (cs : List Char) : Option (Clock × Int) := do
  let isSign := fun c : Char => c == '+' || c == '-'
  let (clock, left) ← clock? (cs.takeWhile fun c => !isSign c)
  match cs.dropWhile fun c => !isSign c with
  | [] => if atEnd left then some (clock, 0) else none
  | sign :: r =>
      let (zone, left) ← clock? r
      if !atEnd left then none
      else
        -- A distance of less than a second counts as none.
        let size : Int := if zone.micros < 1000000 then 0 else zone.micros
        some (clock, if sign == '-' then -size else size)

/-- The date, and the time if there is one. -/
def parts? (cs : List Char) : Option ((Nat × Nat × Nat) × Clock × Int) := do
  let (date, r) ← date? cs
  match r with
  | [] => return (date, ⟨0, 0, 0, 0⟩, 0)
  | _ :: r => return (date, ← time? r)

end Reader

/-- A timestamp of the given parts, if they are in range. -/
def ofParts (date : Nat × Nat × Nat) (clock : Reader.Clock) (offset : Int) :
    Except Fault Timestamp :=
  let (year, month, day) := date
  if hyear : ¬(1 ≤ year ∧ year ≤ 9999) then .error (.year year)
  else if hmonth : ¬(1 ≤ month ∧ month ≤ 12) then .error .month
  else if hday : ¬(1 ≤ day ∧ day ≤ Calendar.daysInMonth year month) then
    .error .day
  else if hhour : ¬clock.hour < 24 then .error .hour
  else if hminute : ¬clock.minute < 60 then .error .minute
  else if hsecond : ¬clock.second < 60 then .error .second
  else if hmicro : ¬clock.micro < 1000000 then .error .second
  else if hoffset : ¬offset.natAbs < dayMicros then .error (.offset offset)
  else .ok ⟨year, month, day, clock.hour, clock.minute, clock.second,
    clock.micro, offset, ⟨by omega, by omega, by omega, by omega, by omega,
      by omega, by omega, by omega, by omega, by omega, by omega⟩⟩

/-- The letter `Z` stands for universal time wherever it is. -/
def spellZulu (cs : List Char) : List Char :=
  cs.flatMap fun c => if c == 'Z' then "+00:00".toList else [c]

def read (s : String) : Except Fault Timestamp :=
  let cs := spellZulu s.toList
  match Reader.parts? cs with
  | none => .error (.malformed (String.ofList cs))
  | some (date, clock, offset) =>
      if offset.natAbs < dayMicros then ofParts date clock offset
      else .error (.offset offset)

end Cutlist.Timestamp
