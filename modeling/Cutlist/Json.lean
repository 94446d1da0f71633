import Cutlist.Binary64

/-!
# JSON values

Whole and real numbers are told apart, as a document keeps apart `5` and `5.0`,
and the members of an object keep the order in which their names first appeared.
-/

namespace Cutlist

/-- A JSON value. -/
inductive Json where
  | null
  | bool (value : Bool)
  | int (value : Int)
  | real (value : Binary64)
  | text (value : String)
  | list (items : List Json)
  | object (members : List (String × Json))
  deriving Inhabited

namespace Json

/-- The members with one of them set: a name that is there keeps its place, a
new one goes to the end. -/
def put (name : String) (value : Json) :
    List (String × Json) → List (String × Json)
  | [] => [(name, value)]
  | (n, v) :: r =>
      if n = name then (n, value) :: r else (n, v) :: put name value r

def find? (name : String) (members : List (String × Json)) : Option Json :=
  (members.find? (·.1 == name)).map (·.2)

/-- Whether a value counts as given: not null, false, zero, or empty. -/
def truthy : Json → Bool
  | null => false
  | bool b => b
  | int n => n != 0
  | real x => !x.isZero
  | text s => !s.isEmpty
  | list items => !items.isEmpty
  | object members => !members.isEmpty

/-- The name of a value's kind in messages. -/
def kindName : Json → String
  | null => "NoneType"
  | bool _ => "bool"
  | int _ => "int"
  | real _ => "float"
  | text _ => "str"
  | list _ => "list"
  | object _ => "dict"

/-- The text of a value that is one. -/
def text? : Json → Option String
  | text s => some s
  | _ => none

end Json

end Cutlist
