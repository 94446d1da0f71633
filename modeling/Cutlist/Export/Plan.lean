import Cutlist.Render.Sound

/-!
# What an export reads

The media files of a project, its timeline, and whether the export can do
without one. Where all that was edited is the beginning and the end, the screen
recording is read only from the one to the other: that is fast, and no filter
has to run.
-/

namespace Cutlist.Export

/-- What is known of the sources before anything is built. -/
structure Plan where
  screen : Json
  camera : Option Json
  microphone : Option Json
  screenHasAudio : Bool
  ranges : List Range
  pieces : List Piece
  edited : Bool
  fast : Bool

def ifGiven (v : Json) : Option Json := if v.truthy then some v else none

/-- The only range, if there is one. -/
def onlyRange? : List Range → Option Range
  | [r] => some r
  | _ => none

/-- Whether the export is one plain stretch of the screen recording, and not all
of it. Zooms and annotations are tied to times of the recording, which a stretch
read on its own does not have. -/
def isPlainStretch (p : Project) (r : Range) : Bool :=
  (decide (0 < r.start) || decide (r.stop < p.duration))
    && !Timeline.isEdited p.pieces r
    && p.edits.zoom.isEmpty
    && p.edits.annotations.isEmpty
    && decide ((p.edits.mix.system - 1).abs < Render.Sound.gainTolerance)

namespace Plan

/-- The plan for a project whose screen recording has sound or has none. -/
def ofProject (p : Project) (screenHasAudio : Bool) : Plan where
  screen := p.screen
  camera := ifGiven p.camera
  microphone := ifGiven p.microphone
  screenHasAudio := screenHasAudio
  ranges := p.ranges
  pieces := p.pieces
  edited := Timeline.isEdited p.pieces p.whole
  fast :=
    (ifGiven p.camera).isNone && (ifGiven p.microphone).isNone
      && (onlyRange? p.ranges).any (isPlainStretch p)

def sources (plan : Plan) : AudioSources :=
  .ofPresence plan.screenHasAudio plan.microphone.isSome

/-- The pieces that filters have to cut; none where the input is already cut. -/
def timeline (plan : Plan) : Option (List Piece) :=
  if plan.fast then none else some plan.pieces

/-- The screen recording as an input, from its only range where
the plan is fast. -/
def screenInput (plan : Plan) : FilterGraph.Input :=
  match plan.fast, plan.ranges with
  | true, r :: _ => ⟨plan.screen.display, some r.start, some r.stop⟩
  | _, _ => ⟨plan.screen.display, none, none⟩

end Plan

end Cutlist.Export
