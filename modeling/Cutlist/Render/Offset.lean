import Cutlist.FilterGraph
import Cutlist.Json.Display

/-!
# Sync offsets

The camera and the microphone may have started at another time than the screen
recording. The offset in milliseconds is taken from the project's document as it
is; it has to be a number, and a truth value counts as one.
-/

namespace Cutlist.Render

open FilterGraph

/-- A sync offset in milliseconds. -/
inductive Offset where
  | whole (n : Int)
  | real (x : Binary64)
  | flag (b : Bool)
  deriving DecidableEq

namespace Offset

def ofJson? : Json → Option Offset
  | .int n => some (whole n)
  | .real x => some (real x)
  | .bool b => some (flag b)
  | _ => none

/-- A value of a document as an offset. -/
def ofJson (v : Json) : Build Offset :=
  match ofJson? v with
  | some o => return o
  | none => throw .offsetKind

/-- The offset that a project gives, 0 when it gives none. -/
def given (v : Json) : Json := if v.truthy then v else .int 0

def isZero : Offset → Bool
  | whole n => n == 0
  | real x => x.isZero
  | flag b => !b

def isPositive : Offset → Bool
  | whole n => decide (0 < n)
  | real x => decide (0 < x)
  | flag b => b

def isNegative : Offset → Bool
  | whole n => decide (n < 0)
  | real x => decide (x < 0)
  | flag _ => false

/-- The milliseconds as they stand in a filter. -/
def toText : Offset → String
  | whole n => (Json.int n).shown
  | real x => (Json.real x).shown
  | flag b => (Json.bool b).shown

/-- The milliseconds without their sign, if they are in range. -/
def size? : Offset → Option Binary64
  | whole n => Binary64.ofInt? n.natAbs
  | real x => some x.abs
  | flag b => some (if b then 1 else 0)

/-- The seconds of an offset without their sign. -/
def seconds (o : Offset) : Build Binary64 :=
  match o.size? with
  | some x => return x / 1000
  | none => throw .offsetTooLarge

end Offset

end Cutlist.Render
