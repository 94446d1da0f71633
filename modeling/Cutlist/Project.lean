import Cutlist.Json
import Cutlist.Timestamp

/-!
# Projects

A finished screen recording and the edits that were made to it. Nothing here
changes the recorded files: an edit says what an export shows of them. Times are
seconds of the recording, places and sizes of annotations are fractions of the
picture.

Names, file paths, sync offsets, colours and captions are whatever value the
project's document gives; what uses one of them decides whether it can.
-/

namespace Cutlist

/-- Pixel size of the screen recording. -/
structure Resolution where
  width : Int
  height : Int
  deriving DecidableEq

/-- A stretch of the recording; an export leaves out a disabled one. -/
structure Segment where
  id : Json
  start : Binary64
  stop : Binary64
  enabled : Bool

/-- The speed of playback over a stretch of the recording. -/
structure SpeedEffect where
  id : Json
  start : Binary64
  stop : Binary64
  speed : Binary64

/-- A zoom over a stretch of the recording; `x` and `y` are
pixels from the centre. -/
structure ZoomEffect where
  id : Json
  start : Binary64
  stop : Binary64
  scale : Binary64
  x : Binary64
  y : Binary64

/-- A rectangle drawn over the video, perhaps with a caption. -/
structure Annotation where
  id : Json
  start : Binary64
  stop : Binary64
  x : Binary64
  y : Binary64
  width : Binary64
  height : Binary64
  color : Json
  opacity : Binary64
  thickness : Int
  text : Json

/-- Where the camera picture is laid over the screen recording. -/
inductive OverlayPosition where
  | topLeft
  | topRight
  | bottomLeft
  | bottomRight
  | custom
  deriving DecidableEq

/-- The place and size of the camera picture. -/
structure CameraOverlay where
  position : OverlayPosition
  margin : Int
  scale : Binary64
  customX : Binary64
  customY : Binary64
  deriving DecidableEq

/-- The gain of each audio source; 1 leaves it as it is. -/
structure AudioMix where
  system : Binary64
  microphone : Binary64
  deriving DecidableEq

/-- Every edit of a project. -/
structure Edits where
  segments : List Segment
  zoom : List ZoomEffect
  speed : List SpeedEffect
  annotations : List Annotation
  overlay : CameraOverlay
  mix : AudioMix

/-- A recording and its edits. -/
structure Project where
  id : Json
  name : Json
  screen : Json
  camera : Json
  microphone : Json
  cameraOffset : Json
  microphoneOffset : Json
  duration : Binary64
  resolution : Resolution
  createdAt : Timestamp
  edits : Edits

namespace OverlayPosition

def toText : OverlayPosition → String
  | topLeft => "top-left"
  | topRight => "top-right"
  | bottomLeft => "bottom-left"
  | bottomRight => "bottom-right"
  | custom => "custom"

def all : List OverlayPosition :=
  [topLeft, topRight, bottomLeft, bottomRight, custom]

def ofText? (s : String) : Option OverlayPosition := all.find? (·.toText == s)

end OverlayPosition

/-- The camera in the lower right corner, a quarter of its size. -/
def CameraOverlay.standard : CameraOverlay := ⟨.bottomRight, 24, 0.25, 1, 1⟩

def AudioMix.standard : AudioMix := ⟨1, 1⟩

/-- A recording that has just been made: one segment, which is all of it,
and no other edit. -/
def Project.new (id screen : String) (duration : Binary64)
    (resolution : Resolution) (camera microphone : Json) (segmentId : String)
    (now : Timestamp) : Project where
  id := .text id
  name := .text ("Recording " ++ String.ofList (id.toList.take 8))
  screen := .text screen
  camera := camera
  microphone := microphone
  cameraOffset := .null
  microphoneOffset := .null
  duration := duration
  resolution := resolution
  createdAt := now
  edits :=
    { segments := [⟨.text segmentId, 0, duration, true⟩]
      zoom := []
      speed := []
      annotations := []
      overlay := .standard
      mix := .standard }

end Cutlist
