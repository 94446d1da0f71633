import Cutlist.Decimal.Shortest
import Cutlist.FilterGraph.Caption
import Cutlist.Timeline

/-!
# Filters

The filters that an export is made of, and how each is written. Times have six
decimals, gains and opacities three, and a factor that scales a picture is a
plain decimal number. A filter that has quoted arguments writes both quotes
itself.
-/

namespace Cutlist.FilterGraph

/-- The two kinds of stream in a media file. -/
inductive Stream where
  | audio
  | video
  deriving DecidableEq

/-- The letter that marks filters on a stream of sound. -/
def Stream.mark : Stream → String
  | .audio => "a"
  | .video => ""

/-- Where the camera picture lies on the picture below it. -/
inductive Placement where
  | corner (position : OverlayPosition) (margin : Int)
  | fraction (x y : Binary64)

/-- The seconds of the export during which something is drawn. -/
structure Window where
  start : Binary64
  stop : Binary64

/-- The left upper corner of a drawing in fractions of the picture. -/
structure Corner where
  x : Binary64
  y : Binary64

/-- One filter of a chain. -/
inductive Filter where
  | verbatim (text : String)
  | trim (stream : Stream) (start : Binary64) (stop : Option Binary64)
  | restart (stream : Stream)
  | retime (speed : Binary64)
  | shift (seconds : Binary64)
  | tempo (places : Nat) (factor : Binary64)
  | concat (stream : Stream) (count : Nat)
  | delay (milliseconds : String)
  | volume (gain : Binary64)
  | highpass (hertz : Nat)
  | splitAudio (count : Nat)
  | duck
  | mix
  | crop (scale x y : Binary64)
  | resize (width height : Int)
  | enlarge (factor : Binary64)
  | fitVideo (height : Int)
  | fitImage (height : Int)
  | overlay (placement : Placement)
  | drawBox (corner : Corner) (width height : Binary64) (color : String)
      (opacity : Binary64) (thickness : Int) (window : Window)
  | drawText (corner : Corner) (caption : String) (opacity : Binary64)
      (window : Window)
  | frameRate (rate : Int)
  | splitVideo
  | makePalette
  | usePalette

/-- The place of the camera picture as the filter takes it. -/
def Placement.toText : Placement → String
  | .corner .topLeft m => s!"{m}:{m}"
  | .corner .topRight m => s!"W-w-{m}:{m}"
  | .corner .bottomLeft m => s!"{m}:H-h-{m}"
  | .corner _ m => s!"W-w-{m}:H-h-{m}"
  | .fraction x y => s!"(W-w)*{x.toFixed 6}:(H-h)*{y.toFixed 6}"

def Window.toText (w : Window) : String :=
  s!"enable='between(t,{w.start.toFixed 6},{w.stop.toFixed 6})'"

def Filter.toText : Filter → String
  | .verbatim text => text
  | .trim stream start none => s!"{stream.mark}trim=start={start.toFixed 6}"
  | .trim stream start (some stop) =>
      s!"{stream.mark}trim=start={start.toFixed 6}:end={stop.toFixed 6}"
  | .restart stream => s!"{stream.mark}setpts=PTS-STARTPTS"
  | .retime speed => s!"setpts=(PTS-STARTPTS)/{speed.toFixed 6}"
  | .shift seconds => s!"setpts=PTS+{seconds.toFixed 6}/TB"
  | .tempo places factor => s!"atempo={factor.toFixed places}"
  | .concat .video count => s!"concat=n={count}:v=1:a=0"
  | .concat .audio count => s!"concat=n={count}:v=0:a=1"
  | .delay milliseconds => s!"adelay={milliseconds}|{milliseconds}"
  | .volume gain => s!"volume={gain.toFixed 3}"
  | .highpass hertz => s!"highpass=f={hertz}"
  | .splitAudio count => s!"asplit={count}"
  | .duck => "sidechaincompress=threshold=0.025:ratio=8:attack=20:release=300"
  | .mix => "amix=inputs=2:duration=longest:dropout_transition=0"
  | .crop scale x y =>
      let width := s!"iw/{scale.toFixed 6}"
      let height := s!"ih/{scale.toFixed 6}"
      s!"crop=w={width}:h={height}:x='(iw-{width})/2+{x.toFixed 3}':"
        ++ s!"y='(ih-{height})/2+{y.toFixed 3}'"
  | .resize width height => s!"scale={width}:{height}"
  | .enlarge factor => s!"scale=iw*{factor.toPlain}:ih*{factor.toPlain}"
  | .fitVideo height => s!"scale=-2:{height}"
  | .fitImage height => s!"scale=-1:{height}:flags=lanczos"
  | .overlay placement => s!"overlay={placement.toText}"
  | .drawBox corner width height color opacity thickness window =>
      s!"drawbox=x=iw*{corner.x.toFixed 6}:y=ih*{corner.y.toFixed 6}:w=iw*{width.toFixed 6}"
        ++ s!":h=ih*{height.toFixed 6}:color={color}@{opacity.toFixed 3}:t={thickness}:"
        ++ window.toText
  | .drawText corner caption opacity window =>
      s!"drawtext=text='{Caption.escaped caption}':x=w*{corner.x.toFixed 6}+10"
        ++ s!":y=h*{corner.y.toFixed 6}+10:fontsize=28:fontcolor=white@{opacity.toFixed 3}"
        ++ ":box=1:boxcolor=black@0.35:" ++ window.toText
  | .frameRate rate => s!"fps={rate}"
  | .splitVideo => "split"
  | .makePalette => "palettegen=stats_mode=diff"
  | .usePalette => "paletteuse=dither=bayer:bayer_scale=5:diff_mode=rectangle"

end Cutlist.FilterGraph
