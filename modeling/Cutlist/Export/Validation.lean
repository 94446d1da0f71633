import Cutlist.Export.Options
import Cutlist.FileTree
import Cutlist.Json.Display
import Cutlist.Project

/-!
# What an export needs

Before a command is made, the media files of the project have to be there, some
segment has to be enabled, and an export of sound alone needs a source of sound.
The first thing that is missing is reported.
-/

namespace Cutlist.Export

/-- Why an export is refused. -/
inductive Rejection where
  | noScreen (path : String)
  | noCamera (path : String)
  | noMicrophone (path : String)
  | nothingEnabled
  | noSound
  deriving DecidableEq

def Rejection.message : Rejection → String
  | .noScreen path => "Screen recording file does not exist: " ++ path
  | .noCamera path => "Camera recording file does not exist: " ++ path
  | .noMicrophone path => "Microphone recording file does not exist: " ++ path
  | .nothingEnabled => "No enabled timeline segments to export"
  | .noSound =>
      "Audio export requires at least one audio source (system or microphone)"

namespace Validation

/-- What stops an export: a rejection, a path that is no text, or one that
cannot be looked at. -/
inductive Fault where
  | rejected (why : Rejection)
  | pathKind
  | file (error : FileError)
  deriving DecidableEq

def isThere (t : FileTree) : Json → Except Fault Bool
  | .text path => (t.has (FilePath.ofString path)).mapError .file
  | _ => .error .pathKind

def need (t : FileTree) (path : Json) (missing : String → Rejection) :
    Except Fault Unit := do
  if ← isThere t path then return ()
  else throw (.rejected (missing path.display))

/-- Requires a media file that a project may have. -/
def needIfGiven (t : FileTree) (path : Json) (missing : String → Rejection) :
    Except Fault Unit :=
  if path.truthy then need t path missing else return ()

def needSegment (p : Project) : Except Fault Unit :=
  if p.edits.segments.any (·.enabled) then return ()
  else throw (.rejected .nothingEnabled)

/-- Requires all that files and timeline have to give. The result tells
whether the screen recording has to have sound besides, because there is no
other source of it. -/
def requirements (t : FileTree) (p : Project) (o : Options) :
    Except Fault Bool := do
  need t p.screen .noScreen
  needIfGiven t p.camera .noCamera
  needIfGiven t p.microphone .noMicrophone
  needSegment p
  if o.format.kind = .sound then
    if p.microphone.truthy then return !(← isThere t p.microphone)
    else return true
  else return false

def needSound (hasSound : Bool) : Except Fault Unit :=
  if hasSound then return () else throw (.rejected .noSound)

end Validation

end Cutlist.Export
