import Cutlist.FileTree
import Cutlist.Text.Capital
import Cutlist.Text.Quoted

/-!
# The journal

What a session notes down while it works goes to every handler of the journal
that takes notes of that level. The program keeps at most two handlers of its
own, the console for warnings and a file for everything from the chosen level
on, and leaves those of others alone. Setting the journal up again replaces its
own handlers.
-/

namespace Cutlist

/-- The level from which on a journal takes notes, by name or by number. -/
inductive Journal.Level where
  | named (name : String)
  | number (value : Int)
  deriving DecidableEq

/-- Where notes are written. -/
inductive Journal.Destination where
  | console
  | file (path : FilePath)
  | other (name : String)
  deriving DecidableEq

/-- A destination and the level from which on it takes notes; `own` tells those
of the program. -/
structure Journal.Handler where
  own : Bool
  destination : Journal.Destination
  level : Int
  deriving DecidableEq

/-- One note of a component. -/
structure Note where
  component : String
  level : Int
  text : String
  deriving DecidableEq

/-- The level of a journal and its handlers, those in use and
those that were closed. -/
structure Journal where
  level : Int := 30
  handlers : List Journal.Handler := []
  closed : List Journal.Handler := []
  deriving DecidableEq

namespace Journal

/-! ## Levels -/

def warning : Int := 30

def error : Int := 40

def levels : List (String × Int) :=
  [("CRITICAL", 50), ("FATAL", 50), ("ERROR", 40), ("WARNING", 30),
    ("WARN", 30), ("INFO", 20), ("DEBUG", 10), ("NOTSET", 0)]

/-- What a note of a level is headed with. -/
def heading (level : Int) : String :=
  match levels.find? (·.2 == level) with
  | some (name, _) => name
  | none => s!"Level {level}"

/-- Why a journal cannot be set up. -/
inductive Fault where
  | unknownLevel (name : String)
  | file (error : FileError)
  deriving DecidableEq

def Fault.message : Fault → String
  | .unknownLevel name => "Unknown level: " ++ Text.quoted ("Level " ++ name)
  | .file e => e.message

/-- The number of a level; its name may be in any case. -/
def Level.value : Level → Except Fault Int
  | .number n => .ok n
  | .named name => match levels.lookup (Text.upper name) with
    | some n => .ok n
    | none => .error (.unknownLevel (Text.upper name))

/-! ## Setting up -/

/-- A journal without a handler, which is closed. -/
def discard (j : Journal) (h : Handler) : Journal :=
  { j with handlers := j.handlers.erase h, closed := j.closed ++ [h] }

/-- A journal without the handlers of the program. All handlers are gone through
that were there at first, while one after the other is taken out. -/
def release (j : Journal) : Journal :=
  j.handlers.foldl (fun k h => if h.own then k.discard h else k) j

/-- Those that were passed over are not of the program, so the one that is taken
out next is the first of its kind behind them. -/
theorem foldl_discard (hs : List Handler) {passed : List Handler}
    (hpassed : ∀ h ∈ passed, h.own = false) (j : Journal) :
    hs.foldl (fun k h => if h.own then k.discard h else k)
        { j with handlers := passed ++ hs } =
      { j with
        handlers := passed ++ hs.filter (!·.own)
        closed := j.closed ++ hs.filter (·.own) } := by
  induction hs generalizing passed j with
  | nil => simp
  | cons h hs ih =>
      cases hown : h.own with
      | true =>
          have hnew : h ∉ passed := fun hmem => by simp [hpassed h hmem] at hown
          have herase : (passed ++ h :: hs).erase h = passed ++ hs := by
            rw [List.erase_append_right _ hnew, List.erase_cons_head]
          have hrest := ih hpassed { j with closed := j.closed ++ [h] }
          simpa [hown, discard, herase] using hrest
      | false =>
          have hrest := ih (List.forall_mem_append.2
            ⟨hpassed, List.forall_mem_singleton.2 hown⟩) j
          simpa [hown] using hrest

theorem release_eq (j : Journal) : j.release =
    { j with
      handlers := j.handlers.filter (!·.own)
      closed := j.closed ++ j.handlers.filter (·.own) } :=
  foldl_discard j.handlers (List.forall_mem_nil _) j

/-- The file of a journal, as a path from the root. A double dot takes back the
name before it. -/
def filePath (t : FileTree) (name : String) : FilePath :=
  let p := FilePath.ofString name
  let below := if p.start = .here then t.current ++ p.names else p.names
  ⟨if p.start = .here then .root else p.start,
    below.foldl
      (fun names n => if n = ".." then names.dropLast else names ++ [n]) []⟩

/-- A journal with one more handler of the program. -/
def attach (destination : Destination) (level : Int) (j : Journal) : Journal :=
  { j with handlers := j.handlers ++ [⟨true, destination, level⟩] }

/-- What is left after setting up, whether or not that failed. -/
structure Setup where
  result : Except Fault Unit
  journal : Journal
  files : FileTree

/-- Sets up a journal with a level and a file; no name, or an empty one, stands
for no file. An unknown level is found out first. A file that cannot be opened
is found out last, when the old handlers are gone. -/
def setUp (file : Option String) (level : Level) (t : FileTree) (j : Journal) :
    Setup :=
  match level.value with
  | .error e => ⟨.error e, j, t⟩
  | .ok value =>
      let free := { j.release with level := value }
      match file.filter (· != "") with
      | none => ⟨.ok (), free.attach .console warning, t⟩
      | some name =>
          let path := filePath t name
          match t.append path ByteArray.empty with
          | .ok t =>
              ⟨.ok (), (free.attach (.file path) value).attach .console warning,
                t⟩
          | .error e => ⟨.error (.file e), free, t⟩

/-! ## Writing -/

/-- Whether a note of a level is taken at all. -/
def takes (j : Journal) (level : Int) : Bool :=
  decide (0 < level) && decide (j.level ≤ level)

def line (time : String) (n : Note) : String :=
  s!"{time} - screenedit.{n.component} - {heading n.level} - {n.text}\n"

/-- The files and the text on the console after a line was
written to a destination. -/
def Destination.write (line : String) :
    Destination → FileTree × String → FileTree × String
  | .console, (t, shown) => (t, shown ++ line)
  | .file path, (t, shown) =>
      ((t.append path line.toUTF8).toOption.getD t, shown)
  | .other _, s => s

/-- The files and the text on the console after a note was taken. -/
def write (j : Journal) (time : String) (n : Note) (s : FileTree × String) :
    FileTree × String :=
  if j.takes n.level then
    (j.handlers.filter fun h => decide (h.level ≤ n.level)).foldl
      (fun s h => h.destination.write (line time n) s) s
  else s

end Journal

end Cutlist
