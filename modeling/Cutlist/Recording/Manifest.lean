import Cutlist.FilePath

/-!
# Manifests

A manifest lists the files that are joined, one to a line and between single
quotes. A single quote in a path is written outside of them, after a backslash.
-/

namespace Cutlist.Recording.Manifest

def quotedChar (c : Char) : List Char :=
  if c = '\'' then ['\'', '\\', '\'', '\''] else [c]

/-- The characters of a path between single quotes. -/
def encode (path : List Char) : List Char := path.flatMap quotedChar

/-- A path as it stands between single quotes. -/
def escaped (path : String) : String := String.ofList (encode path.toList)

def line (path : String) : String := "file '" ++ escaped path ++ "'"

def text (paths : List String) : String := "\n".intercalate (paths.map line)

end Cutlist.Recording.Manifest
