import Cutlist.CommandLine
import Std.Time

/-!
# The program

What a command needs of the system is looked up first: the settings, the files
it may read, and the time. The command then runs on that picture of the system,
and the files it changed are written. No process is started here, so an export
goes as far as its command, and nothing is known of media files.
-/

namespace Cutlist.Main

open CommandLine

/-! ## Looking at the system -/

/-- What is at a path, if anything is; the content of a file only
if it is wanted. -/
def entryAt (path : String) (wanted : Bool) : IO (Option Entry) := do
  match ← (IO.FS.realPath path).toBaseIO with
  | .error _ => return none
  | .ok found =>
      if ← found.isDir then return some .directory
      else if wanted then return some (.file (← IO.FS.readBinFile found))
      else return some (.file ByteArray.empty)

/-- The tree with what is at a path; what the tree already has
stays as it is. -/
def lookAt (wanted : Bool) (t : FileTree) (p : FilePath) : IO FileTree := do
  match ← entryAt p.toText wanted, t.resolve p with
  | some e, .ok place =>
      return if (t.entry? place).isSome then t else t.put place e
  | _, _ => return t

/-- The tree with what is at a path and on the way to it. -/
def see (wanted : Bool) (t : FileTree) (p : FilePath) : IO FileTree := do
  lookAt wanted (← p.steps.dropLast.foldlM (lookAt false) t) p

/-- The names in a directory, in the order of the system. -/
def namesIn (p : FilePath) : IO (List String) := do
  match ← (IO.FS.realPath p.toText).toBaseIO with
  | .ok found =>
      if ← found.isDir then
        return ((← found.readDir).map (·.fileName)).toList
      else return []
  | .error _ => return []

/-- The tree of the current directory, with nothing in it. -/
def currentTree : IO FileTree := do
  let place := (FilePath.ofString (← IO.currentDir).toString).names
  let above := (List.range place.length).map fun n => place.take (n + 1)
  return { entries := above.map fun q => (q, .directory), current := place }

/-- The paths of the media files of a project. -/
def mediaPaths (p : Project) : List FilePath :=
  let texts := [p.screen, p.camera, p.microphone].filterMap Json.text?
  texts.map FilePath.ofString

/-- The paths that an export may write to. -/
def outputPaths (settings : Settings) (choice : ExportChoice) : List FilePath :=
  [settings.exports, FilePath.ofString choice.directory,
    FilePath.ofString choice.output]

/-- The tree with all that a command may look at. -/
def seeFor (settings : Settings) (now : Timestamp) (t : FileTree) :
    Command → IO FileTree
  | .export project choice => do
      let path := FilePath.ofString project
      let t ← [path, path.child Library.fileName].foldlM (see true) t
      let media := match Library.loadFrom t now path with
        | .ok p => mediaPaths p
        | .error _ => []
      (media ++ outputPaths settings choice).foldlM (see false) t
  | .list directory => do
      let directory := (pathIfGiven directory).getD settings.recordings
      let t ← see false t directory
      let names ← namesIn directory
      let projects := names.map directory.child
      let t ← projects.foldlM (see false) t
      let t ← (projects.map (·.child Library.fileName)).foldlM (see true) t
      return t.inOrder (.ofList names)
  | .probe _ => return t

/-- The variables of the settings, and that of the home directory. -/
def knownVariables : IO (List (String × String)) := do
  let names := Settings.names.map fun name => (Settings.variableOf name).toUpper
  ("HOME" :: names).filterMapM fun name =>
    return (← IO.getEnv name).map fun value => (name, value)

/-- Where a program is, if it is in one of the directories for programs. -/
def findProgram (name : String) : IO (Option String) := do
  let directories := ((← IO.getEnv "PATH").getD "").splitOn ":"
  directories.findSomeM? fun directory => do
    let path := directory ++ "/" ++ name
    return match ← entryAt path false with
      | some (.file _) => some path
      | _ => none

/-- The time, which is universal time. -/
def currentTime : IO Timestamp := do
  let now ← Std.Time.PlainDateTime.now
  let (day, time) := (now.date, now.time)
  let date := (day.year.toInt.toNat, day.month.val.toNat, day.day.val.toNat)
  let clock := ⟨time.hour.val.toNat, time.minute.val.toNat,
    time.second.val.toNat, time.nanosecond.val.toNat / 1000⟩
  return (Timestamp.ofParts date clock 0).toOption.getD default

/-! ## Running a command -/

def noProcess : String := "this program starts no processes"

def hostOf (settings : Settings) (now : Timestamp) : IO Host := do
  let programs ← ["ffmpeg", "ffprobe"].mapM fun name =>
    return (name, ← findProgram name)
  return {
    settings := settings
    now := now
    clock := now.journalText
    newId := ""
    which := fun name => (programs.lookup name).join
    probe := fun _ _ => .unavailable noProcess
    course := { refusal := some noProcess } }

def settle (changes : List (Place × Entry)) : IO Unit :=
  changes.forM fun (place, e) => do
    let path := (FilePath.mk .root place).toText
    match e with
    | .directory => IO.FS.createDirAll path
    | .file content => IO.FS.writeBinFile path content

def tell (s : Session) : IO Unit := do
  IO.print s.said
  IO.eprint s.complained

def carryOut (i : Invocation) (settings : Settings) (t : FileTree) :
    IO UInt32 := do
  let now ← currentTime
  let t ← (settings.logFile.toList.map FilePath.ofString).foldlM (see true) t
  let t ← seeFor settings now t i.command
  let host ← hostOf settings now
  let (result, after) := (CommandLine.run i).outcome host { files := t }
  settle (after.files.changes t)
  tell after
  match result with
  | .ok code => return code.toUInt32
  | .error failure => do
      IO.eprintln failure.message
      return 1

def start (i : Invocation) : IO UInt32 := do
  let surroundings ← knownVariables
  let home := FilePath.ofString ((surroundings.lookup "HOME").getD "/")
  let t ← currentTree
  let t ← [Settings.usualConfig, Settings.envFile].foldlM (see true) t
  match Settings.load t home surroundings with
  | .ok settings => carryOut i settings t
  | .error fault => do
      IO.eprintln fault.message
      return 1

end Cutlist.Main

def main (args : List String) : IO UInt32 := do
  match Cutlist.CommandLine.Invocation.parse args with
  | .ok i => Cutlist.Main.start i
  | .error .help => do
      IO.print Cutlist.CommandLine.Invocation.usage
      return 0
  | .error .wrong => do
      IO.eprint Cutlist.CommandLine.Invocation.usage
      return 2
