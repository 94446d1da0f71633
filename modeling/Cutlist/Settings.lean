import Cutlist.FileTree
import Cutlist.Journal
import Cutlist.Json.Reader
import Cutlist.Json.Scalar
import Cutlist.Settings.EnvFile
import Cutlist.Text.Utf8

/-!
# Settings

Where projects and exports are kept, which tools are used, and how long they may
take. A setting is taken from the configuration file, else from a variable of
the surroundings, else from a variable in the file `.env`, else it has its
standard value. All settings are looked at, so that every wrong one is reported,
in the order of their names.
-/

namespace Cutlist

/-- What a user may choose for the program as a whole. -/
structure Settings where
  exports : FilePath
  exportTimeout : Option Binary64 := none
  ffmpeg : Option String := none
  ffprobe : Option String := none
  logFile : Option String := some "screenedit.log"
  logLevel : Journal.Level := .named "INFO"
  platform : String := "other"
  probeTimeout : Binary64 := 10
  recordings : FilePath

namespace Settings

/-- The standard settings of a user with a home directory. -/
def standard (home : FilePath) : Settings where
  exports := home.child "Downloads"
  recordings := (home.child ".screenedit").child "recordings"

/-- What is wrong with a value. -/
inductive Wrong where
  | notReal
  | noReal
  | noText
  | noPath
  | noChoice
  deriving DecidableEq

def Wrong.toText : Wrong → String
  | .notReal => "float_parsing"
  | .noReal => "float_type"
  | .noText => "string_type"
  | .noPath => "path_type"
  | .noChoice => "literal_error"

/-! ## Values -/

/-- A text that spells a real number in ASCII; a single low line may stand
between any two of its characters if there is no white space around it. -/
def realText? (s : String) : Option Binary64 :=
  let cs := Text.strip Text.isNumberBlank s.toList
  if !cs.all fun c => decide (c.toNat < 128) then none
  else if !cs.contains '_' then Decimal.number? (String.ofList cs)
  else if cs != s.toList || cs.head? == some '_' || cs.getLast? == some '_'
      || (cs.zip cs.tail).contains ('_', '_') then none
  else Decimal.number? (String.ofList (cs.filter (· != '_')))

def real : Json → Except Wrong Binary64
  | .text s => match realText? s with
    | some x => .ok x
    | none => .error .notReal
  | v => v.toReal.mapError fun _ => .noReal

def text : Json → Except Wrong String
  | .text s => .ok s
  | _ => .error .noText

def path : Json → Except Wrong FilePath
  | .text s => .ok (FilePath.ofString s)
  | _ => .error .noPath

def orNull {α : Type} (read : Json → Except Wrong α) :
    Json → Except Wrong (Option α)
  | .null => .ok none
  | v => some <$> read v

def platforms : List String := ["macos", "other"]

def platformName : Json → Except Wrong String
  | .text s => if platforms.contains s then .ok s else .error .noChoice
  | _ => .error .noChoice

/-! ## Choosing -/

/-- Settings that are chosen together with what is wrong so far,
each with its name. -/
abbrev Choosing := StateM (List (String × Wrong))

/-- One setting: the value that is given for it, or the standard one. -/
def choose {α : Type} (given : String → Option Json) (name : String)
    (read : Json → Except Wrong α) (usual : α) : Choosing α :=
  match given name with
  | none => return usual
  | some v => match read v with
    | .ok a => return a
    | .error wrong => do
        modify fun log => log ++ [(name, wrong)]
        return usual

def chooseAll (usual : Settings) (given : String → Option Json) :
    Choosing Settings := do
  let exports ← choose given "export_dir" path usual.exports
  let exportTimeout ←
    choose given "export_timeout" (orNull real) usual.exportTimeout
  let ffmpeg ← choose given "ffmpeg_path" (orNull text) usual.ffmpeg
  let ffprobe ← choose given "ffprobe_path" (orNull text) usual.ffprobe
  let logFile ← choose given "log_file" (orNull text) usual.logFile
  let logLevel ←
    choose given "log_level" (fun v => .named <$> text v) usual.logLevel
  let platform ← choose given "platform" platformName usual.platform
  let probeTimeout ← choose given "probe_timeout" real usual.probeTimeout
  let recordings ← choose given "recordings_dir" path usual.recordings
  return ⟨exports, exportTimeout, ffmpeg, ffprobe, logFile, logLevel, platform,
    probeTimeout, recordings⟩

/-- The names of the settings, in the order in which they are looked at. -/
def names : List String :=
  ["export_dir", "export_timeout", "ffmpeg_path", "ffprobe_path", "log_file",
    "log_level", "platform", "probe_timeout", "recordings_dir"]

/-- The settings that are given, or all that is wrong with them. -/
def ofGiven (usual : Settings) (given : String → Option Json) :
    Except (List (String × Wrong)) Settings :=
  match (chooseAll usual given).run [] with
  | (settings, []) => .ok settings
  | (_, wrongs) => .error wrongs

/-! ## Sources -/

def lower (s : String) : String := String.ofList (s.toList.map Char.toLower)

/-- The name of the variable of a setting. -/
def variableOf (name : String) : String := "screenedit_" ++ name

/-- The variable of a setting, the last one whose name is the
same but for its case. -/
def lookUp? {α : Type} (name : String) (known : List (String × α)) : Option α :=
  (known.reverse.find? fun (n, _) => lower n == variableOf name).map (·.2)

/-- What is given for a setting by a configuration, by the variables of the
surroundings, and by those of a file. -/
def sources (config : List (String × Json))
    (surroundings : List (String × String))
    (file : List (String × Option String)) (name : String) : Option Json :=
  match Json.find? name config with
  | some v => some v
  | none => match lookUp? name surroundings with
    | some s => some (.text s)
    | none => ((lookUp? name file).join).map .text

/-- Why settings cannot be loaded. -/
inductive Fault where
  | file (error : FileError)
  | encoding (fault : Text.Utf8.Fault)
  | unreadable (error : Json.ReadError)
  | notObject
  | wrong (settings : List (String × Wrong))

def Fault.message : Fault → String
  | .file e => e.message
  | .encoding f => f.message
  | .unreadable e => e.message
  | .notObject => "the configuration has to be an object"
  | .wrong settings =>
      ", ".intercalate (settings.map fun (name, w) => s!"{name}: {w.toText}")

def readText (t : FileTree) (p : FilePath) : Except Fault String := do
  let bytes ← (t.read p).mapError .file
  (Text.Utf8.text bytes).mapError .encoding

/-- The members of the configuration file; without the file there are none. -/
def readConfig (t : FileTree) (p : FilePath) :
    Except Fault (List (String × Json)) := do
  if ← (t.has p).mapError .file then
    match ← (Json.read (← readText t p)).mapError .unreadable with
    | .object ms => return ms
    | _ => throw .notObject
  else return []

def envFile : FilePath := FilePath.ofString ".env"

/-- The variables of the file of variables, if there is one. -/
def readEnvFile (t : FileTree) (surroundings : List (String × String)) :
    Except Fault (List (String × Option String)) :=
  match t.look envFile with
  | .ok (.file _) => return EnvFile.read surroundings (← readText t envFile)
  | _ => return []

def usualConfig : FilePath := FilePath.ofString "config.json"

def load (t : FileTree) (home : FilePath)
    (surroundings : List (String × String)) (config : FilePath := usualConfig) :
    Except Fault Settings := do
  let members ← readConfig t config
  let file ← readEnvFile t surroundings
  (ofGiven (standard home) (sources members surroundings file)).mapError .wrong

end Settings

end Cutlist
