import Cutlist.Json.Display
import Cutlist.Json.Scalar
import Cutlist.Project
import Cutlist.Timestamp.Reader

/-!
# The document of a project

`Project.ofJson` takes a project from its document and `Project.toJson` makes
the document. Numbers are converted, names and paths are kept as they are, and
edits that the document leaves out are the usual ones. A document is refused at
its first fault, in the order in which `ofJson` looks at its members.
-/

namespace Cutlist

namespace Document

/-- Why a document is not that of a project. -/
inductive Fault where
  | missing (name : String)
  | notObject (kind : String)
  | notText (kind : String)
  | noMembers (value : Json)
  | noItems (kind : String)
  | number (error : Json.ScalarError)
  | timestamp (fault : Timestamp.Fault)
  | position (value : Json)

def Fault.message : Fault → String
  | .missing name => Text.quoted name
  | .notObject kind => s!"'{kind}' object has no attribute 'get'"
  | .notText kind => s!"'{kind}' object has no attribute 'replace'"
  | .noMembers (.text _) => "string indices must be integers, not 'str'"
  | .noMembers (.list _) => "list indices must be integers or slices, not str"
  | .noMembers v => s!"'{v.kindName}' object is not subscriptable"
  | .noItems kind => s!"'{kind}' object is not iterable"
  | .number e => e.message
  | .timestamp f => f.message
  | .position v => v.shown ++ " is not a valid CameraOverlayPosition"

/-- The members of an object that may be asked for optional ones. -/
def members (v : Json) : Except Fault (List (String × Json)) :=
  match v with
  | .object ms => .ok ms
  | v => .error (.notObject v.kindName)

/-- An object that may be left out or empty in any way. -/
def given (v : Option Json) : Json :=
  match v with
  | some v => if v.truthy then v else .object []
  | none => .object []

def need (name : String) (v : Json) : Except Fault Json :=
  match v with
  | .object ms => match Json.find? name ms with
    | some v => .ok v
    | none => .error (.missing name)
  | v => .error (.noMembers v)

def optional (name : String) (standard : Json) (ms : List (String × Json)) :
    Json :=
  (Json.find? name ms).getD standard

def real (v : Json) : Except Fault Binary64 := v.toReal.mapError .number

def whole (v : Json) : Except Fault Int := v.toWhole.mapError .number

def needReal (name : String) (v : Json) : Except Fault Binary64 :=
  need name v >>= real

/-- The values that a list of edits runs over: the items of a list, and then the
names of an object and the characters of a text, of which none is an edit. -/
def items (v : Json) : Except Fault (List Json) :=
  match v with
  | .list vs => .ok vs
  | .object ms => .ok (ms.map fun m => .text m.1)
  | .text s => .ok (s.toList.map fun c => .text (String.singleton c))
  | v => .error (.noItems v.kindName)

def readEdits {α : Type} (read : Json → Except Fault α) (name : String)
    (ms : List (String × Json)) : Except Fault (List α) :=
  items (optional name (.list []) ms) >>= fun vs => vs.mapM read

def readSegment (v : Json) : Except Fault Segment := do
  let id ← need "id" v
  let start ← needReal "startTime" v
  let stop ← needReal "endTime" v
  let ms ← members v
  return ⟨id, start, stop, (optional "enabled" (.bool true) ms).truthy⟩

def readZoom (v : Json) : Except Fault ZoomEffect := do
  let id ← need "id" v
  let start ← needReal "startTime" v
  let stop ← needReal "endTime" v
  let scale ← needReal "scale" v
  let ms ← members v
  let x ← real (optional "x" (.real 0) ms)
  let y ← real (optional "y" (.real 0) ms)
  return ⟨id, start, stop, scale, x, y⟩

def readSpeed (v : Json) : Except Fault SpeedEffect := do
  let id ← need "id" v
  let start ← needReal "startTime" v
  let stop ← needReal "endTime" v
  let speed ← needReal "speed" v
  return ⟨id, start, stop, speed⟩

/-- The colour of an annotation that has none. -/
def standardColor : String := "#ff3b30"

def readAnnotation (v : Json) : Except Fault Annotation := do
  let id ← need "id" v
  let start ← needReal "startTime" v
  let stop ← needReal "endTime" v
  let x ← needReal "x" v
  let y ← needReal "y" v
  let width ← needReal "width" v
  let height ← needReal "height" v
  let ms ← members v
  let opacity ← real (optional "opacity" (.real 1) ms)
  let thickness ← whole (optional "thickness" (.int 4) ms)
  return ⟨id, start, stop, x, y, width, height,
    optional "color" (.text standardColor) ms, opacity, thickness,
    optional "text" .null ms⟩

def readPosition (v : Json) : Except Fault OverlayPosition :=
  match v.text?.bind OverlayPosition.ofText? with
  | some p => .ok p
  | none => .error (.position v)

def readOverlay (v : Json) : Except Fault CameraOverlay := do
  let ms ← members v
  let position ← readPosition (optional "position" (.text "bottom-right") ms)
  let margin ← whole (optional "margin" (.int 24) ms)
  let scale ← real (optional "scale" (.real 0.25) ms)
  let x ← real (optional "customX" (.real 1) ms)
  let y ← real (optional "customY" (.real 1) ms)
  return ⟨position, margin, scale, x, y⟩

def readMix (v : Json) : Except Fault AudioMix := do
  let ms ← members v
  let system ← real (optional "systemVolume" (.real 1) ms)
  let microphone ← real (optional "microphoneVolume" (.real 1) ms)
  return ⟨system, microphone⟩

/-- The time of creation; a document that gives none is new. -/
def readCreatedAt (now : Timestamp) (v : Json) : Except Fault Timestamp :=
  if v.truthy then
    match v with
    | .text s => (Timestamp.read s).mapError .timestamp
    | v => .error (.notText v.kindName)
  else .ok now

end Document

open Document

def Project.ofJson (now : Timestamp) (doc : Json) : Except Fault Project := do
  let ms ← members doc
  let editMembers ← members (given (Json.find? "edits" ms))
  let id ← need "id" doc
  let screen ← need "screenVideoPath" doc
  let duration ← needReal "duration" doc
  let width ← need "resolution" doc >>= need "width" >>= Document.whole
  let height ← need "resolution" doc >>= need "height" >>= Document.whole
  let createdAt ← readCreatedAt now (optional "createdAt" .null ms)
  let segments ← readEdits readSegment "segments" editMembers
  let zooms ← readEdits readZoom "zoom" editMembers
  let speeds ← readEdits readSpeed "speed" editMembers
  let annotations ← readEdits readAnnotation "annotations" editMembers
  let overlay ← readOverlay (given (Json.find? "cameraOverlay" editMembers))
  let mix ← readMix (given (Json.find? "audioMix" editMembers))
  return {
    id := id
    name := optional "name" (.text "") ms
    screen := screen
    camera := optional "cameraVideoPath" .null ms
    microphone := optional "microphoneAudioPath" .null ms
    cameraOffset := optional "cameraOffsetMs" .null ms
    microphoneOffset := optional "microphoneOffsetMs" .null ms
    duration := duration
    resolution := ⟨width, height⟩
    createdAt := createdAt
    edits := ⟨segments, zooms, speeds, annotations, overlay, mix⟩ }

namespace Document

def ofSegment (s : Segment) : Json :=
  .object [("id", s.id), ("startTime", .real s.start),
    ("endTime", .real s.stop), ("enabled", .bool s.enabled)]

def ofZoom (z : ZoomEffect) : Json :=
  .object [("id", z.id), ("startTime", .real z.start),
    ("endTime", .real z.stop), ("scale", .real z.scale), ("x", .real z.x),
    ("y", .real z.y)]

def ofSpeed (s : SpeedEffect) : Json :=
  .object [("id", s.id), ("startTime", .real s.start),
    ("endTime", .real s.stop), ("speed", .real s.speed)]

def ofAnnotation (a : Annotation) : Json :=
  .object [("id", a.id), ("startTime", .real a.start),
    ("endTime", .real a.stop), ("x", .real a.x), ("y", .real a.y),
    ("width", .real a.width), ("height", .real a.height), ("color", a.color),
    ("opacity", .real a.opacity), ("thickness", .int a.thickness),
    ("text", a.text)]

def ofOverlay (o : CameraOverlay) : Json :=
  .object [("position", .text o.position.toText), ("margin", .int o.margin),
    ("scale", .real o.scale), ("customX", .real o.customX),
    ("customY", .real o.customY)]

def ofMix (m : AudioMix) : Json :=
  .object [("systemVolume", .real m.system),
    ("microphoneVolume", .real m.microphone)]

def ofEdits (e : Edits) : Json :=
  .object [("segments", .list (e.segments.map ofSegment)),
    ("zoom", .list (e.zoom.map ofZoom)), ("speed", .list (e.speed.map ofSpeed)),
    ("annotations", .list (e.annotations.map ofAnnotation)),
    ("cameraOverlay", ofOverlay e.overlay), ("audioMix", ofMix e.mix)]

/-- A member that is left out when its value is null. -/
def unlessNull (name : String) : Json → List (String × Json)
  | .null => []
  | v => [(name, v)]

end Document

/-- The document of a project. Media files and offsets that it does not
have are left out. -/
def Project.toJson (p : Project) : Json :=
  .object (
    [("id", p.id), ("name", p.name), ("createdAt", .text p.createdAt.toText),
      ("screenVideoPath", p.screen), ("duration", .real p.duration),
      ("resolution",
        .object [("width", .int p.resolution.width),
          ("height", .int p.resolution.height)]),
      ("edits", ofEdits p.edits)]
    ++ unlessNull "cameraVideoPath" p.camera
    ++ unlessNull "microphoneAudioPath" p.microphone
    ++ unlessNull "cameraOffsetMs" p.cameraOffset
    ++ unlessNull "microphoneOffsetMs" p.microphoneOffset)

end Cutlist
