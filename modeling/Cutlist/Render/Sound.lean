import Cutlist.Render.Offset
import Cutlist.Render.Tempo

/-!
# The sound of an export

The sound of the screen recording and that of the microphone each follow the
timeline, piece by piece, and get their gain. The microphone is first brought
into step and freed of rumble. Where both are there, the microphone lowers the
sound of the screen while somebody speaks, and then the two are mixed.
-/

namespace Cutlist

/-- Which sources of sound take part in an export. -/
inductive AudioSources where
  | none
  | screenOnly
  | microphoneOnly
  | both
  deriving DecidableEq

namespace AudioSources

def ofPresence (screen microphone : Bool) : AudioSources :=
  match screen, microphone with
  | true, true => both
  | true, false => screenOnly
  | false, true => microphoneOnly
  | false, false => none

def hasScreen : AudioSources → Bool
  | screenOnly | both => true
  | _ => false

def hasMicrophone : AudioSources → Bool
  | microphoneOnly | both => true
  | _ => false

def toText : AudioSources → String
  | none => "none"
  | screenOnly => "screen_only"
  | microphoneOnly => "mic_only"
  | both => "both"

end AudioSources

namespace Render.Sound

open FilterGraph

/-- Gains that differ from 1 by less than this are left out. -/
def gainTolerance : Binary64 := 0.01

/-- Whether a timeline leaves sound as it is: one piece from the beginning to
the end, if the end is known, at its own speed. -/
def isUntouched (pieces : List Piece) (duration : Option Binary64) : Bool :=
  match pieces with
  | [p] =>
      decide (p.start ≤ Timeline.timeTolerance)
        && duration.all
          (fun d => decide ((p.stop - d).abs ≤ Timeline.timeTolerance))
        && decide ((p.speed - 1).abs < Timeline.speedTolerance)
  | _ => false

def pieceFilters (p : Piece) : List Filter :=
  [.trim .audio p.start (some p.stop), .restart .audio] ++ Tempo.filters p.speed

def timeline (source : Label) (pieces : List Piece) (stem : String)
    (duration : Option Binary64) : Build Label := do
  if isUntouched pieces duration then return source
  let parts ← pieces.mapM fun p => chain source (pieceFilters p) stem
  match parts with
  | [part] => return part
  | _ => join parts [.concat .audio parts.length] (stem ++ "out")

/-- Sound brought into step: delayed by a positive offset, cut at the
beginning by any other. -/
def offset (source : Label) (value : Json) (stem : String) : Build Label := do
  let o ← Offset.ofJson value
  if o.isZero then return source
  else if o.isPositive then chain source [.delay o.toText] stem
  else
    let seconds ← o.seconds
    chain source [.trim .audio seconds none, .restart .audio] stem

/-- Sound at a volume, which is brought into the range from 0 to 2. -/
def gain (source : Label) (volume : Binary64) (stem : String) : Build Label :=
  let gain := volume.clamp 0 2
  if (gain - 1).abs < gainTolerance then return source
  else chain source [.volume gain] stem

/-- Sound along a timeline of the whole recording, if there is one. -/
def follow (source : Label) (pieces : Option (List Piece)) (project : Project)
    (stem : String) : Build Label :=
  match pieces with
  | some pieces => timeline source pieces stem (some project.duration)
  | none => return source

def screen (pieces : Option (List Piece)) (project : Project) :
    Build Label := do
  let sound ← follow (.input 0 .audio) pieces project "ascreen"
  gain sound project.edits.mix.system "ascreenvol"

def microphone (index : Nat) (pieces : Option (List Piece))
    (project : Project) : Build Label := do
  let sound ← offset (.input index .audio)
    (Offset.given project.microphoneOffset) "amicoffset"
  let sound ← follow sound pieces project "amicpiece"
  let sound ← chain sound [.highpass 80] "amicclean"
  gain sound project.edits.mix.microphone "amicvol"

/-- Both sounds mixed. One copy of the microphone's lowers the
other, one is heard. -/
def mixed (screen microphone : Label) : Build Label := do
  let trigger ← fresh "amictrigger"
  let voice ← fresh "amicmix"
  addChain [microphone] [.splitAudio 2] [trigger, voice]
  let ducked ← join [screen, trigger] [.duck] "aducked"
  join [ducked, voice] [.mix] "aout"

/-- What a source of sound gives, if it takes part. -/
def ifHeard (takesPart : Bool) (sound : Build Label) : Build (Option Label) :=
  if takesPart then some <$> sound else return none

/-- The sound of an export, if it has any. There is no timeline where the inputs
are read only from where the export begins to where it ends. -/
def output (sources : AudioSources) (pieces : Option (List Piece))
    (project : Project) (index : Nat) : Build (Option Label) := do
  let screen ← ifHeard sources.hasScreen (screen pieces project)
  let microphone ←
    ifHeard sources.hasMicrophone (microphone index pieces project)
  match screen, microphone with
  | some screen, some microphone => some <$> mixed screen microphone
  | some sound, none | none, some sound => return some sound
  | none, none => return none

theorem output_eq (sources : AudioSources) (pieces : Option (List Piece))
    (project : Project) (index : Nat) : output sources pieces project index =
      match sources with
      | .none => pure none
      | .screenOnly => some <$> screen pieces project
      | .microphoneOnly => some <$> microphone index pieces project
      | .both => (do
          let screen ← screen pieces project
          let microphone ← microphone index pieces project
          some <$> mixed screen microphone) := by
  cases sources <;>
    simp [output, ifHeard, AudioSources.hasScreen, AudioSources.hasMicrophone]

end Render.Sound

end Cutlist
