import Cutlist.CommandLine.Arguments
import Cutlist.Decimal.Reading
import Cutlist.Export.Options

/-!
# Invocations of the program

The three commands: to export a project, to list all projects, and to inspect a
media file. What applies to the program as a whole comes before the name of the
command.
-/

namespace Cutlist.CommandLine

open Export

/-- What is chosen for an export. An empty path is none. -/
structure ExportChoice where
  options : Options := {}
  directory : String := ""
  output : String := ""
  dryRun : Bool := false
  deriving DecidableEq

/-- A command with what was chosen for it. -/
inductive Command where
  | export (project : String) (choice : ExportChoice)
  | list (directory : String)
  | probe (file : String)
  deriving DecidableEq

/-- A command, and whether all that is noted down is kept. -/
structure Invocation where
  verbose : Bool
  command : Command
  deriving DecidableEq

namespace Invocation

/-! ## Grammars -/

/-- What comes before the name of a command. -/
def front : Grammar where
  switches := [helpSwitch, { name := "--verbose" }]

def exportGrammar : Grammar where
  switches := [helpSwitch, { name := "--format", takesValue := true },
    { name := "--fps", takesValue := true },
    { name := "--compression", takesValue := true },
    { name := "--resolution", takesValue := true },
    { name := "--output-dir", takesValue := true },
    { name := "--output", takesValue := true }, { name := "--dry-run" }]
  plainWord := some "project"

def listGrammar : Grammar where
  switches := [helpSwitch, { name := "--recordings-dir", takesValue := true }]

def probeGrammar : Grammar where
  switches := [helpSwitch]
  plainWord := some "file"

def usage : String :=
  "usage: cutlist [-h] [--verbose] export PROJECT"
    ++ " [--format mp4|mov|gif|wav|mp3] [--fps 24|30|60]\n"
    ++ "         [--compression minimal|social|web|potato]"
    ++ " [--resolution 720p|1080p|4k]\n"
    ++ "         [--output-dir DIR] [--output FILE] [--dry-run]\n"
    ++ "       cutlist [-h] [--verbose] list [--recordings-dir DIR]\n"
    ++ "       cutlist [-h] [--verbose] probe FILE\n"

/-! ## Choices -/

def frameRates : List Int := [24, 30, 60]

def frameRate? (text : String) : Option Int :=
  ((Decimal.wholeNumber text).toOption).filter (frameRates.contains ·)

/-- The member of a choice with a name. -/
def member? {α : Type} (all : List α) (name : α → String) (text : String) :
    Option α :=
  all.find? (name · == text)

/-- A choice for an export, besides its project. -/
def setExport (name value : String) (c : Option String × ExportChoice) :
    Option (Option String × ExportChoice) :=
  let (project, choice) := c
  let set := fun (o : Options) => (project, { choice with options := o })
  match name with
  | "project" => some (some value, choice)
  | "--format" => (member? Format.all Format.toText value).map fun f =>
      set { choice.options with format := f }
  | "--fps" => (frameRate? value).map fun n =>
      set { choice.options with frameRate := n }
  | "--compression" =>
      (member? Compression.all Compression.toText value).map fun c =>
        set { choice.options with compression := c }
  | "--resolution" => (member? Size.all Size.toText value).map fun s =>
      set { choice.options with size := s }
  | "--output-dir" => some (project, { choice with directory := value })
  | "--output" => some (project, { choice with output := value })
  | "--dry-run" => some (project, { choice with dryRun := true })
  | _ => none

/-- The value of a plain word that has to be there. -/
def require : Option String → Except Usage String
  | some s => .ok s
  | none => .error .wrong

def parseExport (args : List String) : Except Usage (Command × Bool) := do
  let ((project, choice), placed) ←
    exportGrammar.parse setExport (none, {}) args
  return (.export (← require project) choice, placed)

def parseList (args : List String) : Except Usage (Command × Bool) := do
  let (directory, placed) ←
    listGrammar.parse (fun _ value _ => some value) "" args
  return (.list directory, placed)

def parseProbe (args : List String) : Except Usage (Command × Bool) := do
  let (file, placed) ←
    probeGrammar.parse (fun _ value _ => some (some value)) none args
  return (.probe (← require file), placed)

/-- The command with a name, and whether every word after it has its place. -/
def parseCommand : List String → Except Usage (Command × Bool)
  | "export" :: args => parseExport args
  | "list" :: args => parseList args
  | "probe" :: args => parseProbe args
  | _ => .error .wrong

/-- Whether a word belongs to what comes before the name of a command. -/
def isFront (word : String) : Bool :=
  match front.classify word with
  | .plain _ => false
  | _ => word != "--"

def parse (args : List String) : Except Usage Invocation := do
  if (front.words args).contains .ambiguous then throw .wrong
  let (verbose, placed) ←
    front.parse (fun _ _ _ => some true) false (args.takeWhile isFront)
  let (command, allPlaced) ← parseCommand (args.dropWhile isFront)
  if placed && allPlaced then return ⟨verbose, command⟩ else throw .wrong

end Invocation

end Cutlist.CommandLine
