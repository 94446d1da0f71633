import Cutlist.CommandLine.Invocation
import Cutlist.Export.Request
import Cutlist.Text.ShellWord

/-!
# Commands

What the program does when it is called: the commands, what they say, and the
exit code. A rejected export exits with 2, a cancelled one with 130, and any
other failure that is reported with 1.
-/

namespace Cutlist.CommandLine

open Export Session

/-! ## Exporting -/

/-- How progress is shown, over what was shown before. -/
def progressText (p : Run.Progress) : String :=
  match p.percent with
  | some x =>
      "\rExporting... " ++ String.ofList ((x.toFixed 1).toList.leftpad 5 ' ')
        ++ "%"
  | none => ""

/-- A path that is not empty. -/
def pathIfGiven (text : String) : Option FilePath :=
  if text = "" then none else some (FilePath.ofString text)

/-- The request that was chosen for a project. -/
def ExportChoice.request (choice : ExportChoice) (project : Project) :
    Request where
  project := project
  options := choice.options
  directory := pathIfGiven choice.directory
  output := pathIfGiven choice.output
  dryRun := choice.dryRun

/-- What is said of an export that succeeds. -/
def answerText (a : Answer) : String :=
  if a.executed then s!"\nExported to {a.output.toText}\n"
  else Text.ShellWord.line a.command ++ "\n"

/-- Reports a failed export, if it is the export that failed. -/
def reportExport : Failure → Action Nat
  | .validation (.rejected why) => do
      complain s!"Export rejected: {why.message}\n"
      return 2
  | failure => match failure.ofEncoder? with
    | some .cancelled => do
        complain "\nExport cancelled\n"
        return 130
    | some e => do
        complain s!"\nExport failed: {e.message}\n"
        return 1
    | none => throw failure

def exportProject (path : String) (choice : ExportChoice) : Action Nat := do
  let host ← read
  let files := (← get).files
  let project ← ofExcept .library
    (Library.loadFrom files host.now (FilePath.ofString path))
  let platform ← ofExcept .choice (Request.platform host)
  let request := choice.request project
  match ← attempt
      (request.answer platform (some fun _ => false) progressText) with
  | .ok answer => do
      say (answerText answer)
      return 0
  | .error failure => reportExport failure

/-! ## Listing -/

/-- The size of a picture as it is shown. -/
def sizeText (r : Resolution) : String := s!"{r.width}x{r.height}"

def row (p : Project) : String :=
  "\t".intercalate [p.id.display, p.name.display, p.duration.toFixed 2 ++ "s",
    sizeText p.resolution] ++ "\n"

def listProjects (directory : String) : Action Nat := do
  let host ← read
  let library : Library :=
    ⟨(pathIfGiven directory).getD host.settings.recordings⟩
  let listing := library.list (← get).files host.now
  listing.skipped.forM fun (path, fault) =>
    warn "ProjectStore" s!"Skipping {path.toText}: {fault.message}"
  let projects ← ofExcept .library listing.result
  projects.forM fun p => say (row p)
  return 0

/-! ## Inspecting -/

def truthText (b : Bool) : String := (Json.bool b).shown

/-- A length in time as it is shown. -/
def secondsText (x : Binary64) : String := x.toFixed 3 ++ "s"

/-- What is shown, if it is known. -/
def orUnknown (text : Option String) : String := text.getD "unknown"

def inspect (file : String) : Action Nat := do
  let dimensions ← dimensions file
  let duration ← duration file
  let sound ← hasSound file
  say s!"audio: {truthText sound}\n"
  say s!"dimensions: {orUnknown (dimensions.map sizeText)}\n"
  say s!"duration: {orUnknown (duration.map secondsText)}\n"
  return 0

/-! ## All commands -/

def perform : Command → Action Nat
  | .export project choice => exportProject project choice
  | .list directory => listProjects directory
  | .probe file => inspect file

/-- The level from which on everything is kept. -/
def verboseLevel : Journal.Level := .named "DEBUG"

/-- Carries out an invocation; the result is the exit code. -/
def run (i : Invocation) : Action Nat := do
  let host ← read
  setUpJournal host.settings.logFile
    (if i.verbose then verboseLevel else host.settings.logLevel)
  match ← attempt (perform i.command) with
  | .ok code => return code
  | .error failure =>
      if failure.isReported then do
        complain s!"Error: {failure.message}\n"
        return 1
      else throw failure

end Cutlist.CommandLine
