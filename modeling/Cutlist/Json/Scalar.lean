import Cutlist.Json.Reader
import Cutlist.Text.Quoted

/-!
# Numbers in a document

Where a document needs a number, a truth value counts as 0 or 1 and a text is
read as a number.
-/

namespace Cutlist.Json

/-- Why a value is not the number that is needed. -/
inductive ScalarError where
  | notNumber (text : String)
  | notWhole (text : String)
  | tooLong (digits : Nat)
  | undefined
  | infinite
  | tooLarge
  | kind (whole : Bool) (name : String)
  deriving DecidableEq

def ScalarError.message : ScalarError → String
  | .notNumber s => "could not convert string to float: " ++ Text.quoted s
  | .notWhole s =>
      "invalid literal for int() with base 10: "
        ++ String.ofList ((Text.quoted s).toList.take 200)
  | .tooLong digits => tooLongMessage digits
  | .undefined => "cannot convert float NaN to integer"
  | .infinite => "an infinite number is not whole"
  | .tooLarge => "a whole number is out of range"
  | .kind false name =>
      s!"float() argument must be a string or a real number, not '{name}'"
  | .kind true name =>
      "int() argument must be a string, a bytes-like object"
        ++ s!" or a real number, not '{name}'"

def toReal : Json → Except ScalarError Binary64
  | .real x => .ok x
  | .int n => match Binary64.ofInt? n with
    | some x => .ok x
    | none => .error .tooLarge
  | .bool b => .ok (if b then 1 else 0)
  | .text s => match Decimal.number? s with
    | some x => .ok x
    | none => .error (.notNumber s)
  | v => .error (.kind false v.kindName)

/-- A value as a whole number: a real number toward zero, a text
only if it spells one. -/
def toWhole : Json → Except ScalarError Int
  | .int n => .ok n
  | .bool b => .ok (if b then 1 else 0)
  | .real x => match x.truncate with
    | .ok n => .ok n
    | .error .nan => .error .undefined
    | .error .infinite => .error .infinite
  | .text s => match Decimal.wholeNumber s with
    | .ok n => .ok n
    | .error .malformed => .error (.notWhole s)
    | .error (.tooLong digits) => .error (.tooLong digits)
  | v => .error (.kind true v.kindName)

end Cutlist.Json
