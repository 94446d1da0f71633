import Cutlist.Json
import Cutlist.Decimal.Shortest
import Cutlist.Text.Quoted

/-!
# Values in messages and arguments

How a value of a document looks in a message, in a file name or among the
arguments of a command. A text stands for itself there; inside a list or an
object, and where a message points at a wrong value, it is quoted.
-/

namespace Cutlist.Json

mutual

def shown : Json → String
  | .null => "None"
  | .bool b => if b then "True" else "False"
  | .int n => toString n
  | .real x => x.toShortest
  | .text s => Text.quoted s
  | .list vs => "[" ++ ", ".intercalate (shownItems vs) ++ "]"
  | .object ms => "\x7b" ++ ", ".intercalate (shownMembers ms) ++ "\x7d"

def shownItems : List Json → List String
  | [] => []
  | v :: vs => v.shown :: shownItems vs

def shownMembers : List (String × Json) → List String
  | [] => []
  | m :: ms => shownMember m :: shownMembers ms

def shownMember : String × Json → String
  | (name, v) => Text.quoted name ++ ": " ++ v.shown

end

/-- A value as it stands in a command or a message: a text without quotes. -/
def display : Json → String
  | .text s => s
  | v => v.shown

end Cutlist.Json
