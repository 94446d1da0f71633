import Cutlist.Decimal.Shortest
import Cutlist.FilePath
import Cutlist.Journal
import Cutlist.Run.Progress

/-!
# Runs of the encoder

A runner starts one process at a time, reads what it writes until it ends, and
reports progress to a listener. How the process goes is given beforehand: the
lines that are read, the moments at which someone asks to stop it, when it ends,
and the exit code. Whatever happens, a started process has ended or was killed
when the run is over, its time limit is lifted, and the runner is free.
-/

namespace Cutlist

namespace Run

/-- What happens while the output of a process is read: a line is read,
someone asks to stop the process, or it ends, and what it has written until
then is still read. -/
inductive Step where
  | line (text : String)
  | stop
  | exit
  deriving DecidableEq

/-- The course that a process will take. `refusal` says why it does not start,
`exited` that it has ended before anything is read, `elapsed` the seconds it
takes, and `creates` the files it writes. -/
structure Course where
  id : Nat := 0
  refusal : Option String := none
  creates : List (FilePath × ByteArray) := []
  steps : List Step := []
  complaints : List String := []
  exited : Bool := false
  exitCode : Int := 0
  elapsed : Binary64 := 0

/-- Told every progress so far, the latest last, a listener says whether it
breaks the run off. -/
abbrev Listener := List Progress → Bool

/-- What a runner is asked to run. A limit of zero seconds is none. -/
structure Job where
  command : List String
  limit : Option Binary64 := none
  total : Option Binary64 := none
  listener : Option Listener := none

/-- What is done to a process and to its time limit. -/
inductive Event where
  | limitSet (seconds : Binary64)
  | limitLifted
  | terminate
  | kill
  | wait
  | stop (done : Bool)
  deriving DecidableEq

/-- Why a run does not succeed. -/
inductive Error where
  | emptyCommand
  | refused (why : String)
  | tooLarge
  | listener
  | cancelled
  | timedOut (limit : Binary64)
  | failed (exitCode : Int) (complaint : String)
  deriving DecidableEq

def ending (count : Nat) (s : String) : String :=
  String.ofList (s.toList.drop (s.toList.length - count))

def Error.message : Error → String
  | .emptyCommand => "The command is empty"
  | .refused why => "Could not start FFmpeg: " ++ why
  | .tooLarge => "A number is out of range"
  | .listener => "The run was broken off"
  | .cancelled => "Export cancelled"
  | .timedOut limit => s!"FFmpeg exceeded the {limit.toShortest}s timeout"
  | .failed code complaint =>
      s!"FFmpeg failed with exit code {code}: {ending 2000 complaint}"

/-- Whether an error is one of the encoder, and not of what listens to it. -/
def Error.isEncoders : Error → Bool
  | .refused _ | .cancelled | .timedOut _ | .failed .. => true
  | .emptyCommand | .tooLarge | .listener => false

end Run

open Run

/-- Whether the process of a runner still runs. -/
inductive Runner.Liveness where
  | running
  | ended
  deriving DecidableEq

/-- The process that is under way, if any, and whether it was asked to stop. -/
structure Runner where
  process : Option Runner.Liveness := none
  stopped : Bool := false
  deriving DecidableEq

namespace Runner

/-- Asks the process to stop; false when none runs. -/
def stop (r : Runner) : Bool × Runner :=
  match r.process with
  | some .running => (true, { r with stopped := true })
  | _ => (false, r)

end Runner

namespace Run

/-! ## Reading what a process writes -/

/-- A run under way: the runner, the lines of the block that is not complete,
the progress that was reported, and what was done so far. -/
structure Reading where
  runner : Runner
  fields : Fields := []
  heard : List Progress := []
  events : List Event := []

/-- Why reading breaks off. -/
inductive Break where
  | tooLarge
  | listener
  deriving DecidableEq

/-- The name and the value on a line, if it has both. -/
def field? (line : String) : Option (String × String) :=
  let cs := (Text.trim line).toList
  match cs.dropWhile (· != '=') with
  | [] => none
  | _ :: value =>
      some (String.ofList (cs.takeWhile (· != '=')), String.ofList value)

namespace Reading

def stop (s : Reading) : Reading :=
  let (done, runner) := s.runner.stop
  let terminated := if done then [.terminate] else []
  { s with runner := runner, events := s.events ++ terminated ++ [.stop done] }

def exit (s : Reading) : Reading :=
  { s with runner := { s.runner with process := some .ended } }

def hear (listener : Listener) (p : Progress) (s : Reading) :
    Reading × Option Break :=
  let heard := s.heard ++ [p]
  ({ s with fields := [], heard := heard },
    if listener heard then some .listener else none)

def closeBlock (job : Job) (s : Reading) : Reading × Option Break :=
  match Progress.ofFields s.fields job.total with
  | .error .tooLarge => (s, some .tooLarge)
  | .error .unusable => ({ s with fields := [] }, none)
  | .ok p => match job.listener with
    | some listener => s.hear listener p
    | none => ({ s with fields := [] }, none)

/-- A line is read; the name `progress` ends a block. -/
def takeLine (job : Job) (line : String) (s : Reading) :
    Reading × Option Break :=
  match field? line with
  | none => (s, none)
  | some (name, value) =>
      let s := { s with fields := (name, value) :: s.fields }
      if name = "progress" then s.closeBlock job else (s, none)

/-- What happens is followed until it breaks off or there is
nothing left to read. -/
def follow (job : Job) : List Step → Reading → Reading × Option Break
  | [], s => (s, none)
  | .stop :: rest, s => follow job rest s.stop
  | .exit :: rest, s => follow job rest s.exit
  | .line text :: rest, s =>
      match s.takeLine job text with
      | (s, some b) => (s, some b)
      | (s, none) => follow job rest s

end Reading

/-! ## A whole run -/

/-- What a run leaves behind. `started` is the command that was given to the
system, and `completed` what the process complained of when all went well. -/
structure Report where
  result : Except Error String
  started : Option (List String) := none
  events : List Event := []
  heard : List Progress := []
  notes : List Note := []

/-- The seconds of a time limit that is one. -/
def Job.activeLimit (job : Job) : Option Binary64 :=
  job.limit.filter (!·.isZero)

/-- The command as it is started. Progress has to be asked for before
any output is named. -/
def Job.started? (job : Job) : Option (List String) :=
  match job.command with
  | [] => none
  | program :: args =>
      some (program :: "-progress" :: "pipe:1" :: "-nostats" :: args)

/-- How a process that has ended is judged: an asked stop first, then the limit,
then the exit code. -/
def verdict (job : Job) (course : Course) (stopped : Bool) :
    Except Error String :=
  let complaint := String.join course.complaints
  if stopped then .error .cancelled
  else if course.exitCode = 0 then .ok complaint
  else match job.activeLimit with
    | some seconds =>
        if seconds ≤ course.elapsed then .error (.timedOut seconds)
        else .error (.failed course.exitCode complaint)
    | none => .error (.failed course.exitCode complaint)

def note (level : Int) (text : String) : Note := ⟨"Runner", level, text⟩

/-- What the runner notes down about an error. -/
def Error.notes : Error → List Note
  | .refused why => [note Journal.error ("Could not start FFmpeg: " ++ why)]
  | .timedOut limit =>
      [note Journal.error s!"FFmpeg timed out after {limit.toShortest}s"]
  | .failed code complaint =>
      [note Journal.error
        s!"FFmpeg exited with code {code}. Stderr: {complaint}"]
  | _ => []

def notesOf : Except Error String → List Note
  | .ok _ => []
  | .error e => e.notes

def Break.error : Break → Error
  | .tooLarge => .tooLarge
  | .listener => .listener

/-- What is done when a run breaks off: a process that still runs is killed,
never left alone. -/
def abandon (course : Course) (r : Runner) : List Event × List Note :=
  if r.process = some .running then
    ([.kill, .wait],
      [note Journal.warning s!"Killing FFmpeg process {course.id}"])
  else ([], [])

end Run

namespace Runner

/-- The runner with a process that has just been started. -/
def start (course : Course) : Runner :=
  ⟨some (if course.exited then .ended else .running), false⟩

def supervise (job : Job) (course : Course) : Report × Runner :=
  let (s, broken) := Reading.follow job course.steps { runner := start course }
  let limitSet := match job.activeLimit with
    | some seconds => [Event.limitSet seconds]
    | none => []
  let limitLifted := if job.activeLimit.isSome then [Event.limitLifted] else []
  match broken with
  | some b =>
      let (events, notes) := abandon course s.runner
      ({ result := .error b.error, started := job.started?, heard := s.heard,
         notes := notes,
         events := limitSet ++ s.events ++ events ++ limitLifted },
        { s.runner with process := none })
  | none =>
      let result := verdict job course s.runner.stopped
      ({ result := result, started := job.started?, heard := s.heard,
         notes := notesOf result,
         events := limitSet ++ s.events ++ [.wait] ++ limitLifted },
        { s.runner with process := none })

/-- Runs a job whose process goes as given. -/
def run (job : Job) (course : Course) (r : Runner) : Report × Runner :=
  match job.started?, course.refusal with
  | none, _ => ({ result := .error .emptyCommand }, { r with stopped := false })
  | some command, some why =>
      let error := Error.refused why
      ({ result := .error error, started := some command,
         notes := error.notes },
        { r with stopped := false })
  | some _, none => supervise job course

end Runner

end Cutlist
