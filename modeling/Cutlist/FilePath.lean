/-!
# Paths of files

A path is a start and names below it. Its text is read once: repeated slashes,
single dots and a final slash leave nothing behind, while a double dot is a name
like any other, since what is above a directory only the file system knows.
Exactly two slashes at the beginning are kept.
-/

namespace Cutlist

/-- Where a path starts. -/
inductive FilePath.Start where
  | here
  | root
  | doubleRoot
  deriving DecidableEq

/-- A start and the names below it. -/
structure FilePath where
  start : FilePath.Start
  names : List String
  deriving DecidableEq

namespace FilePath

def split : List Char → List (List Char)
  | [] => [[]]
  | c :: cs =>
      if c = '/' then [] :: split cs
      else match split cs with
        | [] => [[c]]
        | part :: parts => (c :: part) :: parts

/-- Whether a stretch between slashes is a name. -/
def isName (part : List Char) : Bool := !(part == [] || part == ['.'])

def startOf : List Char → Start
  | '/' :: '/' :: '/' :: _ => .root
  | '/' :: '/' :: _ => .doubleRoot
  | '/' :: _ => .root
  | _ => .here

def ofString (s : String) : FilePath :=
  ⟨startOf s.toList, ((split s.toList).filter isName).map String.ofList⟩

def Start.toText : Start → String
  | .here => ""
  | .root => "/"
  | .doubleRoot => "//"

/-- The text of a path; that of the directory that is current is a dot. -/
def toText (p : FilePath) : String :=
  if p.start = .here ∧ p.names = [] then "."
  else p.start.toText ++ "/".intercalate p.names

/-- A path below another; a path with a start of its own replaces it. -/
def join (p q : FilePath) : FilePath :=
  if q.start = .here then ⟨p.start, p.names ++ q.names⟩ else q

def child (p : FilePath) (name : String) : FilePath :=
  ⟨p.start, p.names ++ [name]⟩

def parent (p : FilePath) : FilePath := ⟨p.start, p.names.dropLast⟩

/-- The paths on the way to a path, from its start on, and the path itself. -/
def steps (p : FilePath) : List FilePath :=
  (List.range (p.names.length + 1)).map fun n => ⟨p.start, p.names.take n⟩

def name? (p : FilePath) : Option String := p.names.getLast?

@[simp] theorem parent_child (p : FilePath) (name : String) :
    (p.child name).parent = p := by
  simp [parent, child]

end FilePath

end Cutlist
