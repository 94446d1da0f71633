import Cutlist.Project
import Cutlist.Timeline.Range

/-!
# The timeline of an export

An export shows the enabled segments in order of time. Each is cut at the bounds
of the speed and zoom effects inside it, so that speed and zoom are constant in
every piece. Of overlapping speed effects the one declared first counts, and of
overlapping zooms the first one that enlarges.

The bounds of a segment are kept exactly. A bound of an effect is left out when
it is closer than `Timeline.gap` to a bound of the segment or to the cut before
it.
-/

namespace Cutlist

/-- A zoom in effect over a whole piece. -/
structure ActiveZoom where
  scale : Binary64
  x : Binary64
  y : Binary64
  deriving DecidableEq

/-- A stretch of the recording that is shown at one speed and one zoom. -/
structure Piece where
  start : Binary64
  stop : Binary64
  speed : Binary64 := 1
  zoom : Option ActiveZoom := none
  deriving DecidableEq

namespace Piece

/-- The seconds of the recording that a piece shows. -/
def span (p : Piece) : Binary64 := p.stop - p.start

/-- The seconds that a piece takes in the export. A speed that is not
positive counts as 1. -/
def playTime (p : Piece) : Binary64 :=
  p.span / (if 0 < p.speed then p.speed else 1)

end Piece

namespace Timeline

/-- Cuts are at least this far apart, in seconds. -/
def gap : Binary64 := 1e-9

/-- Times that differ by no more than this count as equal where a
timeline is compared. -/
def timeTolerance : Binary64 := 0.001

/-- Speeds that differ by no more than this count as equal. -/
def speedTolerance : Binary64 := 0.01

/-- Whether an instant lies in a half-open stretch. -/
def covers (start stop time : Binary64) : Bool :=
  decide (start ≤ time) && decide (time < stop)

/-- The speed at an instant: that of the first effect declared over it. -/
def speedAt (effects : List SpeedEffect) (time : Binary64) : Binary64 :=
  match effects.find? fun e => covers e.start e.stop time with
  | some e => e.speed
  | none => 1

/-- The zoom at an instant: the first declared over it that enlarges. -/
def zoomAt (effects : List ZoomEffect) (time : Binary64) : Option ActiveZoom :=
  (effects.find?
      fun e => covers e.start e.stop time && decide (1 < e.scale)).map
    fun e => ⟨e.scale, e.x, e.y⟩

/-- Whether a bound of an effect lies inside a range, at a
distance from its ends. -/
def interior (r : Range) (time : Binary64) : Bool :=
  decide (r.start + gap ≤ time) && decide (time ≤ r.stop - gap)

/-- The cuts that are far enough from the cut before them; `last` is the cut
before the first. -/
def spread (last : Binary64) : List Binary64 → List Binary64
  | [] => []
  | t :: ts => if gap ≤ t - last then t :: spread t ts else spread last ts

/-- The instants at which a range is cut, with its ends. -/
def cuts (bounds : List Binary64) (r : Range) : List Binary64 :=
  let inside := (bounds.filter (interior r)).mergeSort fun a b => decide (a ≤ b)
  r.start :: spread r.start inside ++ [r.stop]

/-- The ranges between neighbouring instants that end after they start. -/
def between (times : List Binary64) : List Range :=
  ((times.zip times.tail).filter fun (a, b) => !decide (b ≤ a)).map
    fun (a, b) => ⟨a, b⟩

/-- Whether pieces are anything but one plain copy of a range. -/
def isEdited (pieces : List Piece) (r : Range) : Bool :=
  match pieces with
  | [p] =>
      decide (timeTolerance < (p.start - r.start).abs)
        || decide (timeTolerance < (p.stop - r.stop).abs)
        || decide (speedTolerance < (p.speed - 1).abs) || p.zoom.isSome
  | _ => true

/-- The seconds that pieces take one after another in the export. -/
def playTime (pieces : List Piece) : Binary64 :=
  pieces.foldl (fun total p => total + p.playTime) 0

end Timeline

open Timeline

namespace Edits

/-- The bounds of all effects, speeds before zooms. -/
def bounds (e : Edits) : List Binary64 :=
  e.speed.flatMap (fun s => [s.start, s.stop])
    ++ e.zoom.flatMap (fun z => [z.start, z.stop])

def piecesOf (e : Edits) (r : Range) : List Piece :=
  (between (cuts e.bounds r)).map fun part =>
    ⟨part.start, part.stop, speedAt e.speed part.start,
      zoomAt e.zoom part.start⟩

end Edits

namespace Project

def whole (p : Project) : Range := ⟨0, p.duration⟩

/-- The enabled segments in order of time; all of the recording
when none is enabled. -/
def ranges (p : Project) : List Range :=
  let enabled := (p.edits.segments.filter (·.enabled)).map
    fun s => ⟨s.start, s.stop⟩
  Range.sort (if enabled.isEmpty then [p.whole] else enabled)

/-- The pieces cut from the ranges that end after they start. -/
def cutPieces (p : Project) : List Piece :=
  (p.ranges.filter fun r => !decide (r.stop ≤ r.start)).flatMap p.edits.piecesOf

/-- The pieces of the export, or all of the recording in one piece
when there is none. -/
def pieces (p : Project) : List Piece :=
  if p.cutPieces.isEmpty then [⟨0, p.duration, 1, none⟩] else p.cutPieces

end Project

end Cutlist
