import Cutlist.FilePath

/-!
# A tree of files

Files and directories below one root, and the directory from which relative
paths start. A place in the tree is the list of names on the way down from the
root, so two paths that spell one place lead to the same entry. Every operation
follows a path from name to name: a double dot goes up, and each name on the way
has to be that of a directory.
-/

namespace Cutlist

/-- A file with its content, or a directory. -/
inductive Entry where
  | directory
  | file (content : ByteArray)

instance : DecidableEq Entry
  | .directory, .directory => isTrue rfl
  | .directory, .file _ => isFalse nofun
  | .file _, .directory => isFalse nofun
  | .file a, .file b => match ByteArray.instDecidableEq a b with
    | isTrue h => isTrue (congrArg Entry.file h)
    | isFalse h => isFalse fun e => h (Entry.file.inj e)

/-- Why an operation on files fails. -/
inductive FileError where
  | notFound
  | notDirectory
  | isDirectory
  | exists
  | notEmpty
  | tooLong
  | nullCharacter
  | invalid
  deriving DecidableEq

def FileError.message : FileError → String
  | .notFound => "No such file or directory"
  | .notDirectory => "Not a directory"
  | .isDirectory => "Is a directory"
  | .exists => "File exists"
  | .notEmpty => "Directory not empty"
  | .tooLong => "File name too long"
  | .nullCharacter => "embedded null byte"
  | .invalid => "Invalid argument"

abbrev Place := List String

/-- The order in which a file system gives the names in a directory. It is that
of the system, and nothing is known of it but that it is one of these names. -/
structure FileTree.Order where
  arrange : Place → List String → List String
  perm : ∀ place names, (arrange place names).Perm names

namespace FileTree.Order

/-- The order of the characters. -/
def byName : Order where
  arrange _ names := names.mergeSort fun a b => decide (a ≤ b)
  perm _ names := List.mergeSort_perm names _

/-- The order of a list of names; a name that is not on it goes to the end. -/
def ofList (given : List String) : Order where
  arrange _ names :=
    names.mergeSort fun a b => decide (given.idxOf a ≤ given.idxOf b)
  perm _ names := List.mergeSort_perm names _

end FileTree.Order

/-- The entries of a tree, and the order in which they are given. The root
itself is always a directory. -/
structure FileTree where
  entries : List (Place × Entry)
  current : Place := []
  order : FileTree.Order := .byName

namespace FileTree

/-- The same files, given in another order. -/
def inOrder (t : FileTree) (order : Order) : FileTree :=
  { t with order := order }

def entry? (t : FileTree) (place : Place) : Option Entry :=
  if place = [] then some .directory
  else (t.entries.find? (·.1 == place)).map (·.2)

def putEntry (place : Place) (e : Entry) :
    List (Place × Entry) → List (Place × Entry)
  | [] => [(place, e)]
  | (p, old) :: r =>
      if p = place then (p, e) :: r else (p, old) :: putEntry place e r

def put (t : FileTree) (place : Place) (e : Entry) : FileTree :=
  { t with entries := putEntry place e t.entries }

/-- The tree without the entries at the places of a kind. -/
def without (t : FileTree) (p : Place → Bool) : FileTree :=
  { t with entries := t.entries.filter fun x => !p x.1 }

/-- Whether a place is another, or lies below it. -/
def isWithin (top place : Place) : Bool := top.isPrefixOf place

/-! ## Following a path -/

/-- The longest name, in bytes. -/
def maxName : Nat := 255

/-- The longest text of a path, in bytes. -/
def maxPath : Nat := 4095

def walk (t : FileTree) (place : Place) : List String → Except FileError Place
  | [] => .ok place
  | name :: names =>
      match t.entry? place with
      | none => .error .notFound
      | some (.file _) => .error .notDirectory
      | some .directory =>
          if name = ".." then t.walk place.dropLast names
          else if maxName < name.utf8ByteSize then .error .tooLong
          else t.walk (place ++ [name]) names

def startOf (t : FileTree) (p : FilePath) : Place :=
  match p.start with
  | .here => t.current
  | _ => []

/-- The place that a path leads to, whether or not anything is there. -/
def resolve (t : FileTree) (p : FilePath) : Except FileError Place :=
  if p.names.any (·.toList.contains '\x00') then .error .nullCharacter
  else if maxPath < p.toText.utf8ByteSize then .error .tooLong
  else t.walk (t.startOf p) p.names

def look (t : FileTree) (p : FilePath) : Except FileError Entry := do
  match t.entry? (← t.resolve p) with
  | some e => return e
  | none => throw .notFound

/-- Whether a fault means that nothing is there. -/
def FileError.isAbsence : FileError → Bool
  | .notFound | .notDirectory | .nullCharacter => true
  | _ => false

/-- What a path leads to, if anything is there. -/
def look? (t : FileTree) (p : FilePath) : Except FileError (Option Entry) :=
  match t.look p with
  | .ok e => .ok (some e)
  | .error e => if FileError.isAbsence e then .ok none else .error e

def has (t : FileTree) (p : FilePath) : Except FileError Bool :=
  return (← t.look? p).isSome

def isDirectory (t : FileTree) (p : FilePath) : Except FileError Bool :=
  return (← t.look? p) = some .directory

/-! ## Files -/

def read (t : FileTree) (p : FilePath) : Except FileError ByteArray := do
  match ← t.look p with
  | .file content => return content
  | .directory => throw .isDirectory

/-- The content of the file at a place, before anything is written to it;
nothing when there is no file. -/
def contentAt (t : FileTree) (place : Place) : Except FileError ByteArray :=
  match t.entry? place with
  | some .directory => .error .isDirectory
  | some (.file content) => .ok content
  | none => .ok ByteArray.empty

/-- The tree with the content of a file set. -/
def write (t : FileTree) (p : FilePath) (content : ByteArray) :
    Except FileError FileTree := do
  let place ← t.resolve p
  let _ ← t.contentAt place
  return t.put place (.file content)

/-- The tree with the content of a file made longer. -/
def append (t : FileTree) (p : FilePath) (content : ByteArray) :
    Except FileError FileTree := do
  let place ← t.resolve p
  let old ← t.contentAt place
  return t.put place (.file (old ++ content))

def unlink (t : FileTree) (p : FilePath) : Except FileError FileTree := do
  let place ← t.resolve p
  match t.entry? place with
  | none => throw .notFound
  | some .directory => throw .isDirectory
  | some (.file _) => return t.without (· == place)

/-- The tree without a file that need not be there. -/
def discard (t : FileTree) (p : FilePath) : Except FileError FileTree :=
  match t.unlink p with
  | .error .notFound => .ok t
  | r => r

/-! ## Directories -/

def makeDirectory (t : FileTree) (p : FilePath) :
    Except FileError FileTree := do
  let place ← t.resolve p
  match t.entry? place with
  | some _ => throw .exists
  | none => return t.put place .directory

/-- Takes a failure to make a directory for success where the
directory is there. -/
def unlessThere (t : FileTree) (p : FilePath) :
    Except FileError FileTree → Except FileError FileTree
  | .ok t' => .ok t'
  | .error e => do if ← t.isDirectory p then return t else throw e

/-- The tree with a directory and all directories above it; `names` are those of
the path, last name first. -/
def makeAll (t : FileTree) (start : FilePath.Start) :
    List String → Except FileError FileTree
  | [] => t.unlessThere ⟨start, []⟩ (t.makeDirectory ⟨start, []⟩)
  | name :: above =>
      let p : FilePath := ⟨start, (name :: above).reverse⟩
      match t.makeDirectory p with
      | .error .notFound => do
          let t ← t.makeAll start above
          t.unlessThere p (t.makeDirectory p)
      | r => t.unlessThere p r

/-- The tree with a directory and all directories above it. -/
def makeDirectories (t : FileTree) (p : FilePath) : Except FileError FileTree :=
  t.makeAll p.start p.names.reverse

/-- The names in a directory, in the order of the file system. -/
def children (t : FileTree) (p : FilePath) :
    Except FileError (List String) := do
  let place ← t.resolve p
  match t.entry? place with
  | none => throw .notFound
  | some (.file _) => throw .notDirectory
  | some .directory =>
      let names := t.entries.filterMap fun (q, _) =>
        if q.dropLast = place then q.getLast? else none
      return t.order.arrange place names

/-- The tree without an empty directory. -/
def removeDirectory (t : FileTree) (p : FilePath) :
    Except FileError FileTree := do
  let place ← t.resolve p
  match t.entry? place with
  | none => throw .notFound
  | some (.file _) => throw .notDirectory
  | some .directory =>
      if p.names = [] then throw .invalid
      else if p.name? = some ".." ||
          t.entries.any (fun x => isWithin place x.1 && x.1 != place) then
        throw .notEmpty
      else return t.without (· == place)

/-- The tree without what is in a directory. -/
def clear (t : FileTree) (p : FilePath) : Except FileError FileTree := do
  let place ← t.resolve p
  match t.entry? place with
  | none => throw .notFound
  | some (.file _) => throw .notDirectory
  | some .directory => return t.without fun q => isWithin place q && q != place

/-! ## Moving -/

/-- A place moved with the place above it. -/
def moved (source target place : Place) : Place :=
  if isWithin source place then target ++ place.drop source.length else place

/-- Whether one entry may take the place of another. -/
def replaceable (t : FileTree) (source : Entry) (target : Place) :
    Except FileError Unit :=
  match source, t.entry? target with
  | _, none => .ok ()
  | .file _, some (.file _) => .ok ()
  | .file _, some .directory => .error .isDirectory
  | .directory, some (.file _) => .error .notDirectory
  | .directory, some .directory =>
      if t.entries.any (fun x => isWithin target x.1 && x.1 != target) then
        .error .notEmpty
      else .ok ()

/-- The tree with an entry moved, and all that is in it. What was at the
target is replaced. -/
def rename (t : FileTree) (source target : FilePath) :
    Except FileError FileTree := do
  let source ← t.resolve source
  let target ← t.resolve target
  match t.entry? source with
  | none => throw .notFound
  | some e =>
      if source = target then return t
      else if isWithin source target then throw .invalid
      else
        t.replaceable e target
        let rest := t.without (· == target)
        return { rest with
          entries := rest.entries.map fun (q, x) => (moved source target q, x) }

/-! ## Views -/

/-- The entries below the current directory with their names from there. -/
def listing (t : FileTree) : List (Place × Entry) :=
  t.entries.filterMap fun (q, e) =>
    if isWithin t.current q && q != t.current then
      some (q.drop t.current.length, e)
    else none

/-- The entries that are not the same in an earlier tree. -/
def changes (t earlier : FileTree) : List (Place × Entry) :=
  t.entries.filter fun (place, e) => earlier.entry? place ≠ some e

end FileTree

end Cutlist
