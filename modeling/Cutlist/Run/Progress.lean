import Cutlist.Binary64
import Cutlist.Decimal.Reading
import Cutlist.Text.Blank

/-!
# Progress of the encoder

While it runs, the encoder writes blocks of `key=value` lines. A block says how
much of the output is written, in microseconds or as a clock time, and perhaps
how fast that goes. A block that does not make sense reports nothing; a number
too large for arithmetic is a fault of its own.
-/

namespace Cutlist.Run

/-- How far the encoder is; the time written is in milliseconds. -/
structure Progress where
  written : Int
  speed : Option Binary64
  percent : Option Binary64
  frame : Option Int
  frameRate : Option Binary64
  bitRate : Option String
  deriving DecidableEq

/-- Why a clock time is no number of seconds. -/
inductive ClockFault where
  | tooLong (digits : Nat)
  | tooLarge
  deriving DecidableEq

/-! ## Clock times -/

/-- Digits before a colon, and what follows it. -/
def beforeColon? (cs : List Char) : Option (List Char × List Char) :=
  match cs.takeWhile Text.isNumeral, cs.dropWhile Text.isNumeral with
  | [], _ => none
  | ds, ':' :: r => some (ds, r)
  | _, _ => none

/-- The digits of a second, with a fraction if one follows. -/
def secondDigits? (cs : List Char) : Option (List Char) :=
  let fraction := match cs.dropWhile Text.isNumeral with
    | '.' :: r => r.takeWhile Text.isNumeral
    | _ => []
  match cs.takeWhile Text.isNumeral with
  | [] => none
  | ds => some (if fraction.isEmpty then ds else ds ++ '.' :: fraction)

/-- Hours, minutes and seconds as they are written. -/
structure Clock where
  hours : String
  minutes : String
  seconds : String

/-- The clock time at the beginning of a text. -/
def clock? (cs : List Char) : Option Clock := do
  let (hours, r) ← beforeColon? cs
  let (minutes, r) ← beforeColon? r
  let seconds ← secondDigits? r
  return ⟨String.ofList hours, String.ofList minutes, String.ofList seconds⟩

def clockMark : List Char := "time=".toList

/-- The first clock time with a mark before it. -/
def findClock? : List Char → Option Clock
  | [] => none
  | c :: cs =>
      let here := if clockMark.isPrefixOf (c :: cs) then
          clock? ((c :: cs).drop clockMark.length)
        else none
      match here with
      | some clock => some clock
      | none => findClock? cs

def wholePart (ds : String) : Except ClockFault Int :=
  match Decimal.wholeNumber ds with
  | .ok n => .ok n
  | .error (.tooLong digits) => .error (.tooLong digits)
  | .error .malformed => .ok 0

namespace Clock

/-- The seconds of a clock time. -/
def toSeconds (clock : Clock) : Except ClockFault Binary64 := do
  let hours ← wholePart clock.hours
  let minutes ← wholePart clock.minutes
  match Binary64.ofInt? (hours * 3600 + minutes * 60) with
  | some x => return x + (Decimal.number? clock.seconds).getD 0
  | none => throw .tooLarge

end Clock

/-- The seconds of the first clock time in a line of statistics. -/
def clockTime (line : String) : Except ClockFault (Option Binary64) :=
  (findClock? line.toList).mapM Clock.toSeconds

/-! ## Blocks -/

/-- The lines of a block, the latest first. -/
abbrev Fields := List (String × String)

/-- Why a block reports nothing. -/
inductive BlockFault where
  | unusable
  | tooLarge
  deriving DecidableEq

namespace Block

def whole (text : String) : Except BlockFault Int :=
  (Decimal.wholeNumber text).mapError fun _ => .unusable

def real (text : String) : Except BlockFault Binary64 :=
  match Decimal.number? text with
  | some x => .ok x
  | none => .error .unusable

/-- The milliseconds of a clock time. -/
def clockMilliseconds (text : String) : Except BlockFault Int :=
  match clockTime ("time=" ++ text) with
  | .ok (some seconds) => (seconds * 1000).truncate.mapError fun _ => .tooLarge
  | .error .tooLarge => .error .tooLarge
  | _ => .error .unusable

/-- The milliseconds written. Both counts are in microseconds, whatever the
second is called. -/
def written (fields : Fields) : Except BlockFault Int :=
  match fields.lookup "out_time_us", fields.lookup "out_time_ms",
    fields.lookup "out_time" with
  | some n, _, _ => return (← whole n).fdiv 1000
  | none, some n, _ => return (← whole n).fdiv 1000
  | none, none, some clock => clockMilliseconds clock
  | none, none, none => .error .unusable

/-- The part written of the seconds that there will be, in percent. -/
def percent (milliseconds : Int) (total : Option Binary64) :
    Except BlockFault (Option Binary64) :=
  match total with
  | some seconds =>
      if 0 < seconds then
        match Binary64.ofInt? milliseconds with
        | some x => .ok (some (Binary64.greater 0
            (Binary64.lesser 100 (x / 10 / seconds))))
        | none => .error .tooLarge
      else .ok none
  | none => .ok none

/-- A speed without the sign of multiplication after it. -/
def speedText (text : String) : String :=
  Text.trim (String.ofList ((text.toList.reverse.dropWhile (· == 'x')).reverse))

/-- The speed, if it is known. -/
def speed (fields : Fields) : Except BlockFault (Option Binary64) :=
  let text := speedText ((fields.lookup "speed").getD "")
  if text = "" ∨ text = "N/A" then .ok none else some <$> real text

/-- A value that is not empty. -/
def nonEmpty (name : String) (fields : Fields) : Option String :=
  (fields.lookup name).filter (· != "")

end Block

/-- The progress that a block reports, with the total number of seconds where
that is known. -/
def Progress.ofFields (fields : Fields) (total : Option Binary64) :
    Except BlockFault Progress := do
  let written ← Block.written fields
  let percent ← Block.percent written total
  let speed ← Block.speed fields
  let frame ← (Block.nonEmpty "frame" fields).mapM Block.whole
  let frameRate ← (Block.nonEmpty "fps" fields).mapM Block.real
  return ⟨written, speed, percent, frame, frameRate, fields.lookup "bitrate"⟩

end Cutlist.Run
