import Cutlist.Render.Offset
import Cutlist.Text.Blank

/-!
# The picture of an export

The screen recording is cut into the pieces of the timeline, each with its speed
and zoom. The camera picture is laid over it, annotations are drawn on it, and
at the end it is scaled, or turned into an animated image with a palette of its
own.
-/

namespace Cutlist.Render.Picture

open FilterGraph

def minZoom : Binary64 := 1.01

/-- The camera picture is at least this part of its size. -/
def minCameraScale : Binary64 := 0.1

/-- An annotation that is not shown for longer than this is not drawn. -/
def minShown : Binary64 := 0.01

/-- The least width and height of a rectangle, as a part of the picture. -/
def minSize : Binary64 := 0.02

def minOpacity : Binary64 := 0.1

/-- Cuts out the part of the picture that a zoom shows and brings
it to full size. -/
def zoomFilters (zoom : ActiveZoom) (size : Resolution) : List Filter :=
  [.crop (zoom.scale.greater minZoom) zoom.x zoom.y,
    .resize size.width size.height]

def pieceFilters (size : Resolution) (p : Piece) : List Filter :=
  [.trim .video p.start (some p.stop), .retime p.speed]
    ++ (p.zoom.map (zoomFilters · size)).getD []

def timeline (source : Label) (pieces : List Piece) (size : Resolution) :
    Build Label := do
  let parts ← pieces.mapM fun p => chain source (pieceFilters size p) "vpiece"
  match parts with
  | [part] => return part
  | _ => join parts [.concat .video parts.length] "vconcat"

def placement (o : CameraOverlay) : Placement :=
  match o.position with
  | .custom => .fraction (o.customX.clamp 0 1) (o.customY.clamp 0 1)
  | corner => .corner corner o.margin

/-- The filters that bring the camera picture into step: a positive offset shows
it later, a negative one cuts its beginning. -/
def syncFilters (o : Offset) : Build (List Filter) := do
  if o.isPositive then
    let seconds ← o.seconds
    return [.shift seconds]
  else if o.isNegative then
    let seconds ← o.seconds
    return [.trim .video seconds none, .restart .video]
  else return []

def withCamera (base camera : Label) (o : CameraOverlay) (offset : Json) :
    Build Label := do
  let sync ← Offset.ofJson offset >>= syncFilters
  let camera ← chain camera
    (sync ++ [.enlarge (o.scale.greater minCameraScale)]) "cam"
  join [base, camera] [.overlay (placement o)] "vwithcam"

/-- The colour of an annotation without its white space. -/
def color (a : Annotation) : Build String :=
  match a.color.text? with
  | some s => return Text.squeeze s
  | none => throw .colorKind

/-- The caption of an annotation without white space around it,
empty when it has none. -/
def caption (a : Annotation) : Build String :=
  if a.text.truthy then
    match a.text.text? with
    | some s => return Text.trim s
    | none => throw .captionKind
  else return ""

def window (a : Annotation) (duration : Binary64) : Window :=
  ⟨a.start.greater 0, a.stop.lesser duration⟩

/-- Whether a window is too short to draw anything. -/
def isBrief (w : Window) : Bool := decide (w.stop - w.start ≤ minShown)

def corner (a : Annotation) : Corner := ⟨a.x.clamp 0 1, a.y.clamp 0 1⟩

def opacity (a : Annotation) : Binary64 := a.opacity.clamp minOpacity 1

def box (a : Annotation) (color : String) (w : Window) : Filter :=
  .drawBox (corner a) (a.width.clamp minSize 1) (a.height.clamp minSize 1) color
    (opacity a)
    (max a.thickness 1) w

/-- One annotation drawn on the picture: its rectangle, and then its
caption if it has one. -/
def annotate (duration : Binary64) (current : Label) (a : Annotation) :
    Build Label := do
  let w := window a duration
  if isBrief w then return current
  let color ← color a
  let current ← chain current [box a color w] "vannot"
  let caption ← caption a
  if caption.isEmpty then return current
  chain current [.drawText (corner a) caption (opacity a) w] "vannottxt"

/-- Every annotation drawn, in the order in which they were made. -/
def withAnnotations (current : Label) (project : Project) : Build Label :=
  project.edits.annotations.foldlM (annotate project.duration) current

/-- The picture at a height, with an even width. -/
def scaled (source : Label) (height : Int) : Build Label :=
  chain source [.fitVideo height] "vout"

/-- The picture as an animated image: one copy gives the palette, the other is
drawn with it. -/
def animated (source : Label) (rate height : Int) : Build Label := do
  let first ← fresh "s"
  let second ← fresh "s"
  addChain [source] [.frameRate rate, .fitImage height, .splitVideo]
    [first, second]
  let palette ← chain first [.makePalette] "p"
  join [second, palette] [.usePalette] "vout"

end Cutlist.Render.Picture
