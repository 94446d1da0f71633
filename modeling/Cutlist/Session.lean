import Cutlist.Failure
import Cutlist.Settings

/-!
# Sessions

A session works on files with the tools of its host: it looks for programs, asks
about media files, runs the encoder one process at a time, notes down what goes
wrong, and says what it has done. What it did stays done when it fails.
-/

namespace Cutlist

/-- What surrounds a session and stays the same: settings, the time,
new identifiers, where programs are, how media files are judged, and
how the encoder goes. -/
structure Host where
  settings : Settings
  now : Timestamp
  clock : String
  newId : String
  which : String → Option String
  probe : MediaProbe.Question → String → MediaProbe.Outcome
  course : Run.Course

/-- A process that was asked of the system: its command, the files at that time,
and how it went. -/
structure Launch where
  command : List String
  files : FileTree
  report : Run.Report

/-- The files, the journal, the encoder, and what was said and asked so far. -/
structure Session where
  files : FileTree
  journal : Journal := {}
  runner : Runner := {}
  said : String := ""
  complained : String := ""
  calls : List MediaProbe.Call := []
  launches : List Launch := []

abbrev Action := ReaderT Host (ExceptT Failure (StateM Session))

/-- What an action comes to, and the session after it. -/
def Action.outcome {α : Type} (a : Action α) (host : Host) (s : Session) :
    Except Failure α × Session :=
  (a.run host).run.run s

namespace Session

def say (text : String) : Action Unit :=
  modify fun s => { s with said := s.said ++ text }

def complain (text : String) : Action Unit :=
  modify fun s => { s with complained := s.complained ++ text }

def note (n : Note) : Action Unit := do
  let host ← read
  modify fun s =>
    let (files, said) := s.journal.write host.clock n (s.files, s.said)
    { s with files := files, said := said }

def warn (component text : String) : Action Unit :=
  note ⟨component, Journal.warning, text⟩

/-- The outcome of an action, whatever it is. -/
def attempt {α : Type} (a : Action α) : Action (Except Failure α) :=
  fun host => ExceptT.mk fun s =>
    let (r, s) := a.outcome host s
    (.ok r, s)

def ofExcept {ε α : Type} (failure : ε → Failure) : Except ε α → Action α
  | .ok a => return a
  | .error e => throw (failure e)

def look {α : Type} (op : FileTree → Except FileError α) : Action α := do
  ofExcept .file (op (← get).files)

def change (op : FileTree → Except FileError FileTree) : Action Unit := do
  let files ← look op
  modify fun s => { s with files := files }

def changeLibrary {α : Type} (c : Library.Change α) : Action α := do
  let (r, files) := c.run.run (← get).files
  modify fun s => { s with files := files }
  ofExcept .library r

def setUpJournal (file : Option String) (level : Journal.Level) :
    Action Unit := do
  let s ← get
  let setup := Journal.setUp file level s.files s.journal
  set { s with files := setup.files, journal := setup.journal }
  ofExcept .journal setup.result

/-! ## Tools -/

/-- The program for a tool: the one that is set, else the one that is found,
else its name. -/
def tool (configured : Option String) (name : String) : Action String := do
  let host ← read
  let found := (configured.filter (· != "")).orElse
    fun _ => (host.which name).filter (· != "")
  return found.getD name

def ffmpeg : Action String := do tool (← read).settings.ffmpeg "ffmpeg"

def ffprobe : Action String := do tool (← read).settings.ffprobe "ffprobe"

/-! ## Media files -/

/-- Asks about a media file; `limit` is for a call, in seconds. Trouble is noted
down, and then there is no answer. -/
def inquire {α : Type} (limit : Option Binary64) (q : MediaProbe.Question)
    (path : String) (answer : Json → Except MediaProbe.Trouble α) :
    Action (Option α) := do
  let host ← read
  let call : MediaProbe.Call :=
    ⟨MediaProbe.command (← ffprobe) q path,
      limit.getD host.settings.probeTimeout⟩
  modify fun s => { s with calls := s.calls ++ [call] }
  match (host.probe q path).document call >>= answer with
  | .ok a => return some a
  | .error trouble =>
      if q.passesOver trouble then
        warn "MediaIO" (q.warning path trouble)
        return none
      else throw (.probe trouble)

def hasSound (path : String) (limit : Option Binary64 := none) :
    Action Bool := do
  return (← inquire limit .sound path MediaProbe.sound).getD false

/-- The size of the picture of a media file. -/
def dimensions (path : String) (limit : Option Binary64 := none) :
    Action (Option Resolution) :=
  inquire limit .dimensions path MediaProbe.dimensions

/-- The length of a media file in seconds. -/
def duration (path : String) (limit : Option Binary64 := none) :
    Action (Option Binary64) :=
  inquire limit .duration path MediaProbe.duration

/-! ## The encoder -/

/-- The files after a process has written one; a directory for it is made if
there is none. -/
def created (t : FileTree) (path : FilePath) (content : ByteArray) : FileTree :=
  let t := (t.makeDirectories path.parent).toOption.getD t
  (t.write path content).toOption.getD t

def filesAfter (course : Run.Course) (report : Run.Report) (t : FileTree) :
    FileTree :=
  if report.started.isSome && course.refusal.isNone then
    course.creates.foldl (fun t (path, content) => created t path content) t
  else t

/-- Runs the encoder; the result is what it complained of. Progress that was
heard of is said first, then what went wrong is noted down. -/
def encode (job : Run.Job) (shown : Run.Progress → String := fun _ => "") :
    Action String := do
  let course := (← read).course
  let s ← get
  let (report, runner) := s.runner.run job course
  let launches := report.started.toList.map fun command =>
    ⟨command, s.files, report⟩
  set { s with
    runner := runner
    launches := s.launches ++ launches
    files := filesAfter course report s.files }
  say (String.join (report.heard.map shown))
  report.notes.forM note
  ofExcept .run report.result

/-- Asks the encoder to stop; false when it does not run. -/
def stop : Action Bool := do
  let s ← get
  let (done, runner) := s.runner.stop
  set { s with runner := runner }
  return done

end Session

end Cutlist
