import Cutlist.Export.Command
import Cutlist.Export.OutputName
import Cutlist.Session

/-!
# Requests for an export

A request is checked, its output is named, and its command is made; unless it is
a dry run, the encoder then runs that command. Nothing is changed before the
encoder is to run.
-/

namespace Cutlist.Export

/-- One export of one project. The output may be named, or the
directory it goes to. -/
structure Request where
  project : Project
  options : Options
  directory : Option FilePath := none
  output : Option FilePath := none
  dryRun : Bool := false

/-- What comes of a request. -/
structure Answer where
  output : FilePath
  command : List String
  executed : Bool
  deriving DecidableEq

namespace Request

open Session

def check (r : Request) : Action Unit := do
  let s ← get
  if ← ofExcept .validation
      (Validation.requirements s.files r.project r.options) then
    ofExcept .validation
      (Validation.needSound (← hasSound r.project.screen.display))

def outputPath (r : Request) : Action FilePath := do
  let host ← read
  match r.output with
  | some path => return path
  | none =>
      let directory := r.directory.getD host.settings.exports
      match OutputName.path? r.project.name r.options directory host.now with
      | some path => return path
      | none => throw .nameKind

/-- The pieces of the export. That all of the recording stands in for
them is noted down. -/
def pieces (r : Request) : Action (List Piece) := do
  if r.project.cutPieces.isEmpty then
    let id := r.project.id.display
    warn "TimelineSegmenter"
      s!"No usable timeline pieces for project {id}, exporting full duration"
  return r.project.pieces

def plan (r : Request) : Action Plan := do
  let sound ← hasSound r.project.screen.display
  let _ ← r.pieces
  return Plan.ofProject r.project sound

/-- The command of the export to an output. -/
def command (r : Request) (platform : Platform) (output : String) :
    Action (List String) := do
  let plan ← r.plan
  let args ← ofExcept .graph
    (Command.args r.project r.options platform plan output)
  return (← ffmpeg) :: args

/-- The run of a command that exports pieces. -/
def job (host : Host) (pieces : List Piece) (command : List String)
    (listener : Option Run.Listener) : Run.Job where
  command := command
  limit := host.settings.exportTimeout
  total := some (Timeline.playTime pieces)
  listener := listener

/-- Answers a request. The listener hears of progress, which is also shown. -/
def answer (r : Request) (platform : Platform)
    (listener : Option Run.Listener := none)
    (shown : Run.Progress → String := fun _ => "") : Action Answer := do
  r.check
  let output ← r.outputPath
  let command ← r.command platform output.toText
  if r.dryRun then return ⟨output, command, false⟩
  change (·.makeDirectories output.parent)
  let _ ← encode (job (← read) (← r.pieces) command listener) shown
  return ⟨output, command, true⟩

/-- The system that exports are made for, if it is one. -/
def platform (host : Host) : Except Unknown Platform :=
  Platform.ofJson (.text host.settings.platform)

end Request

end Cutlist.Export
