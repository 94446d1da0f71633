import Cutlist.FileTree
import Cutlist.Json.Printer
import Cutlist.Json.Reader
import Cutlist.Project.Document
import Cutlist.Text.Utf8

/-!
# The library of projects

Every project is kept in a directory of its own, named for its identifier, in a
file with its document. A file that is no project is reported with its path and
what is wrong; in a list of all projects it is passed over, and the newest
project comes first.
-/

namespace Cutlist

/-- The directory in which projects are kept. -/
structure Library where
  directory : FilePath

namespace Library

/-- Why the text of a file is no project. -/
inductive ParseFault where
  | encoding (fault : Text.Utf8.Fault)
  | unreadable (error : Json.ReadError)
  | notObject (kind : String)
  | document (fault : Document.Fault)

def ParseFault.message : ParseFault → String
  | .encoding f => f.message
  | .unreadable e => e.message
  | .notObject kind => "expected a JSON object, got " ++ kind
  | .document f => f.message

/-- Why an operation on the library fails. -/
inductive Fault where
  | noProject (id : String)
  | noFile (path : FilePath)
  | unparsable (path : FilePath) (why : ParseFault)
  | tooLarge
  | idKind
  | file (error : FileError)

def Fault.message : Fault → String
  | .noProject id => "Project not found: " ++ id
  | .noFile path => "Project file not found: " ++ path.toText
  | .unparsable path why =>
      s!"Failed to parse project file {path.toText}: {why.message}"
  | .tooLarge => "a number is out of range"
  | .idKind => "an identifier has to be a text"
  | .file e => e.message

/-- Whether a fault is that of one project only, so that a list
can pass over it. -/
def Fault.isOfProject : Fault → Bool
  | .noProject _ | .noFile _ | .unparsable ..
  | .file .notFound | .file .nullCharacter => true
  | .tooLarge | .idKind | .file _ => false

/-- The name of the file with a project's document. -/
def fileName : String := "project.json"

/-! ## Reading -/

/-- A fault of a document. Numbers out of range are not laid to the file. -/
def documentFault (path : FilePath) : Document.Fault → Fault
  | .number .tooLarge | .number .infinite => .tooLarge
  | f => .unparsable path (.document f)

/-- The document in the bytes of a file. -/
def document (bytes : ByteArray) : Except ParseFault Json := do
  let text ← (Text.Utf8.text bytes).mapError .encoding
  match ← (Json.read text).mapError .unreadable with
  | .object ms => return .object ms
  | v => throw (.notObject v.kindName)

/-- The project in the bytes of a file. -/
def parse (now : Timestamp) (path : FilePath) (bytes : ByteArray) :
    Except Fault Project := do
  let doc ← (document bytes).mapError (.unparsable path)
  (Project.ofJson now doc).mapError (documentFault path)

/-- The file of the project at a path, which is that of the file itself or of
its directory. -/
def projectFile (t : FileTree) (path : FilePath) :
    Except FileError FilePath := do
  if ← t.isDirectory path then return path.child fileName else return path

def loadFrom (t : FileTree) (now : Timestamp) (path : FilePath) :
    Except Fault Project := do
  let path ← (projectFile t path).mapError .file
  if ← (t.has path).mapError .file then
    parse now path (← (t.read path).mapError .file)
  else throw (.noFile path)

def placeOf (l : Library) (id : String) : FilePath :=
  l.directory.join (FilePath.ofString id)

/-- The directory of a project that is there. -/
def find (l : Library) (t : FileTree) (id : String) :
    Except Fault FilePath := do
  if ← (t.has (l.placeOf id)).mapError .file then return l.placeOf id
  else throw (.noProject id)

def load (l : Library) (t : FileTree) (now : Timestamp) (id : String) :
    Except Fault Project := do
  loadFrom t now (← l.find t id)

/-! ## Listing -/

/-- What a look at all projects finds: projects, and what was passed over and
why. A fault that is not of one project ends the look. -/
structure Listing where
  result : Except Fault (List Project) := .ok []
  skipped : List (FilePath × Fault) := []

/-- Projects with the newest first; of two that are equally old the
first stays first. -/
def newestFirst (ps : List Project) : List Project :=
  ps.mergeSort fun a b => decide (b.createdAt.instant ≤ a.createdAt.instant)

def visit (t : FileTree) (now : Timestamp) : List FilePath → Listing
  | [] => {}
  | path :: paths =>
      match t.isDirectory path with
      | .error e => { result := .error (.file e) }
      | .ok false => visit t now paths
      | .ok true =>
          match loadFrom t now path with
          | .ok p =>
              let rest := visit t now paths
              { rest with result := rest.result.map (p :: ·) }
          | .error fault =>
              if fault.isOfProject then
                let rest := visit t now paths
                { rest with skipped := (path, fault) :: rest.skipped }
              else { result := .error fault }

def list (l : Library) (t : FileTree) (now : Timestamp) : Listing :=
  match t.has l.directory with
  | .error e => { result := .error (.file e) }
  | .ok false => {}
  | .ok true => match t.children l.directory with
    | .error e => { result := .error (.file e) }
    | .ok names =>
        let found := visit t now (names.map l.directory.child)
        { found with result := found.result.map newestFirst }

/-! ## Changing -/

/-- A change of files that may fail on the way, and then has
changed some of them. -/
abbrev Change := ExceptT Fault (StateM FileTree)

def step (op : FileTree → Except FileError FileTree) : Change Unit := do
  match op (← get) with
  | .ok t => set t
  | .error e => throw (.file e)

/-- The identifier of a project, as a text. -/
def idOf (p : Project) : Except Fault String :=
  match p.id with
  | .text id => .ok id
  | _ => .error .idKind

/-- Keeps a project, in place of one with its identifier; the result is
the path of its file. -/
def save (l : Library) (p : Project) : Change FilePath := do
  let directory := l.placeOf (← idOf p)
  step (·.makeDirectories directory)
  let path := directory.child fileName
  step (·.write path (Json.write p.toJson).toUTF8)
  return path

/-- Removes a project, and whatever else is in its directory. -/
def delete (l : Library) (id : String) : Change Unit := do
  let directory ← l.find (← get) id
  step (·.clear directory)
  step (·.removeDirectory directory)

end Library

end Cutlist
