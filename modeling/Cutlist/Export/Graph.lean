import Cutlist.Export.Options
import Cutlist.Export.Plan
import Cutlist.Render.Picture

/-!
# The filter graph of an export

The inputs are the screen recording, then the camera and the microphone where
there are any. Then come the chains of the picture, those of the sound, and the
last chain of the picture, which scales it or turns it into an animated image. A
video that no filter has touched needs no graph.
-/

namespace Cutlist.Export.Graph

open FilterGraph Render

/-- The numbers of the inputs besides the screen recording. -/
structure Extras where
  camera : Option Nat
  microphone : Option Nat

/-- What goes to the output file, with the numbers of the inputs. -/
structure Outputs extends Extras where
  video : Option Label := none
  audio : Option Label := none

def inputs (plan : Plan) : Build Extras := do
  let _ ← addInput plan.screenInput
  let camera ← plan.camera.mapM fun path => addInput ⟨path.display, none, none⟩
  let microphone ← plan.microphone.mapM fun path =>
    addInput ⟨path.display, none, none⟩
  return ⟨camera, microphone⟩

/-- The picture of the screen recording, cut where it was edited. -/
def cut (project : Project) (plan : Plan) : Build Label :=
  let screen : Label := .input 0 .video
  if !plan.fast && plan.edited then
    Picture.timeline screen plan.pieces project.resolution
  else return screen

/-- The camera picture laid over another, if there is one. -/
def overlaid (project : Project) (base : Label) : Option Nat → Build Label
  | some index =>
      Picture.withCamera base (.input index .video) project.edits.overlay
        (Offset.given project.cameraOffset)
  | none => return base

def picture (project : Project) (plan : Plan) (camera : Option Nat) :
    Build Label := do
  let screen ← cut project plan
  let withCamera ← overlaid project screen camera
  Picture.withAnnotations withCamera project

def sound (project : Project) (plan : Plan) (microphone : Option Nat) :
    Build (Option Label) :=
  Sound.output plan.sources plan.timeline project (microphone.getD 0)

/-- The height of an animated image, and its frames per second, have a limit. -/
def animation (source : Label) (options : Options) : Build Label :=
  Picture.animated source (min options.frameRate 30)
    (min options.size.height 720)

def build (project : Project) (options : Options) (plan : Plan) :
    Build Outputs := do
  let extras ← inputs plan
  match options.format.kind with
  | .sound =>
      return { extras with audio := ← sound project plan extras.microphone }
  | .animation =>
      let video ← picture project plan extras.camera
      return { extras with video := some (← animation video options) }
  | .video =>
      let video ← picture project plan extras.camera
      let audio ← sound project plan extras.microphone
      if (← get).isEmpty then return { extras with audio := audio }
      else
        let scaled ← Picture.scaled video options.size.height
        return { extras with video := some scaled, audio := audio }

end Cutlist.Export.Graph
