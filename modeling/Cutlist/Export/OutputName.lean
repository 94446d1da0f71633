import Cutlist.Export.Options
import Cutlist.FilePath
import Cutlist.Project

/-!
# Names of exported files

An export is named for its project, the time, its size and its format.
Characters that some file system refuses in a name, and spaces, become low
lines, so that the name stays one name whatever the project is called.
-/

namespace Cutlist.Export.OutputName

def refused : List Char := ['/', '\\', ':', '*', '?', '"', '<', '>', '|']

/-- One part of a name. A part of several characters is replaced where they
stand in that order among the refused ones, and so is an empty part. -/
def cleanPart (part : List Char) : List Char :=
  if (List.range (refused.length + 1)).any
    fun i => part.isPrefixOf (refused.drop i) then ['_']
  else part

def withoutSpaces (cs : List Char) : List Char :=
  cs.map fun c => if c = ' ' then '_' else c

/-- Parts of a name, cleaned and put together. -/
def clean (parts : List (List Char)) : List Char :=
  withoutSpaces (parts.flatMap cleanPart)

def sanitize (s : String) : String :=
  String.ofList (clean (s.toList.map fun c => [c]))

/-- The parts of the name that a document gives: the characters of a text, the
texts of a list, the member names of an object. -/
def parts? : Json → Option (List (List Char))
  | .text s => some (s.toList.map fun c => [c])
  | .list vs => vs.mapM fun v => v.text?.map String.toList
  | .object ms => some (ms.map fun m => m.1.toList)
  | _ => none

/-- What the size is called in a file name. -/
def sizeLabel (o : Options) : String :=
  match o.format.kind with
  | .sound => "audio"
  | _ => o.size.toText

/-- The part of a file name that follows the project's name. -/
def ending (o : Options) (now : Timestamp) : String :=
  s!"_{now.stamp}_{sizeLabel o}.{o.format.toText}"

/-- The path of an export in a directory, if the project has a name that
can be part of it. -/
def path? (name : Json) (o : Options) (directory : FilePath) (now : Timestamp) :
    Option FilePath :=
  (parts? name).map fun parts =>
    directory.join
      (FilePath.ofString (String.ofList (clean parts) ++ ending o now))

end Cutlist.Export.OutputName
