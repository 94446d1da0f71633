import Cutlist.Export.Command
import Cutlist.Recording.Manifest
import Cutlist.Session

/-!
# Finished recordings

A recording that was paused is made of several segments. They are joined into
one file, next to which a manifest and the merged file stand for as long as that
takes; only when the merged file is in place are the segments removed. A project
is then made of what the file turns out to be.
-/

namespace Cutlist.Recording

open Session

def manifestName : String := "segments_concat.txt"

def mergedName : String := "screen_merged.mp4"

def writeManifest (paths : List String) (path : FilePath) :
    Action FilePath := do
  change (·.write path (Manifest.text paths).toUTF8)
  return path

/-- Joins the files of a manifest, and removes the manifest whatever comes of
it. When the encoder fails, what it has written is removed too. -/
def merge (manifest merged : FilePath) : Action Unit := do
  let command := (← ffmpeg)
    :: Export.Command.concatArgs manifest.toText merged.toText
  match ← attempt (encode { command := command }) with
  | .ok _ => change (·.discard manifest)
  | .error failure =>
      let cleaned ← attempt
        (if failure.ofEncoder?.isSome then change (·.discard merged)
          else pure ())
      change (·.discard manifest)
      let () ← ofExcept id cleaned
      throw failure

/-- Puts the merged file into the place of the screen recording. -/
def replace (merged screen : FilePath) : Action Unit := do
  if ← look (·.has screen) then change (·.unlink screen)
  change (·.rename merged screen)

/-- Removes the segments, except the screen recording where it is
one of them. -/
def removeSegments (segments : List FilePath) (screen : FilePath) :
    Action Unit :=
  (segments.filter (· ≠ screen)).forM fun path => change (·.discard path)

/-- Joins segments into the screen recording, whose path is the result. A single
segment is left as it is. -/
def concatenate (segments : List FilePath) (screen : FilePath) :
    Action FilePath := do
  if segments.length ≤ 1 then return screen
  let manifest ← writeManifest (segments.map FilePath.toText)
    (screen.parent.child manifestName)
  let merged := screen.parent.child mergedName
  merge manifest merged
  replace merged screen
  removeSegments segments screen
  return screen

/-- The size of a screen that could not be found out. -/
def usualResolution : Resolution := ⟨1920, 1080⟩

def resolutionOf (screen : String) : Action Resolution := do
  match ← dimensions screen with
  | some r => return r
  | none =>
      warn "RecordingService"
        s!"Using 1920x1080 for {screen}, dimensions could not be probed"
      return usualResolution

def pathJson : Option FilePath → Json
  | some p => .text p.toText
  | none => .null

/-- The project of a finished recording. A length that is not
known counts as none. -/
def createProject (id : String) (screen : FilePath)
    (camera microphone : Option FilePath) : Action Project := do
  let host ← read
  let found ← duration screen.toText
  let length := (found.filter (!·.isZero)).getD 0
  let resolution ← resolutionOf screen.toText
  return Project.new id screen.toText length resolution (pathJson camera)
    (pathJson microphone)
    host.newId host.now

end Cutlist.Recording
