/-!
# Words of a shell command line

A command is printed so that a shell reads the same arguments back: a word with
a character that a shell may interpret is put between single quotes, and a
single quote inside is put between double quotes.
-/

namespace Cutlist.Text.ShellWord

def isSafe (c : Char) : Bool := c.isAlphanum || "_@%+=:,./-".toList.contains c

def quotedChar (c : Char) : List Char :=
  if c == '\'' then ['\'', '"', '\'', '"', '\''] else [c]

def encode (s : String) : String :=
  if s.isEmpty then "''"
  else if s.toList.all isSafe then s
  else String.ofList ('\'' :: s.toList.flatMap quotedChar ++ ['\''])

def line (words : List String) : String := " ".intercalate (words.map encode)

end Cutlist.Text.ShellWord
