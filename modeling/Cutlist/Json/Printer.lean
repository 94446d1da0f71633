import Cutlist.Json
import Cutlist.Decimal.Shortest
import Cutlist.Text.Quoted

/-!
# Writing JSON

A value is written on several lines, each level of nesting two spaces deeper, an
empty list or object on one. Characters outside ASCII are written as they are.
Real numbers have the fewest digits that read back, and not-a-number and the
infinities are written as bare words.
-/

namespace Cutlist.Json

namespace Printer

def escape (c : Char) : List Char :=
  if c == '"' || c == '\\' then ['\\', c]
  else if c == '\n' then ['\\', 'n']
  else if c == '\r' then ['\\', 'r']
  else if c == '\t' then ['\\', 't']
  else if c == '\x08' then ['\\', 'b']
  else if c == '\x0c' then ['\\', 'f']
  else if c.toNat < 0x20 then '\\' :: 'u' :: Text.hex 4 c.toNat
  else [c]

def quotedText (s : String) : List Char :=
  '"' :: s.toList.flatMap escape ++ ['"']

def whole (n : Int) : List Char := (toString n).toList

def real : Binary64 → List Char
  | .infinite negative => Decimal.minus negative ++ "Infinity".toList
  | .nan => "NaN".toList
  | x => x.toShortest.toList

/-- A new line, indented to a level. -/
def newline (level : Nat) : List Char := '\n' :: List.replicate (2 * level) ' '

mutual

def value (level : Nat) : Json → List Char
  | .null => "null".toList
  | .bool true => "true".toList
  | .bool false => "false".toList
  | .int n => whole n
  | .real x => real x
  | .text s => quotedText s
  | .list [] => "[]".toList
  | .list (v :: vs) =>
      '[' :: newline (level + 1) ++ value (level + 1) v
        ++ items (level + 1) vs ++ newline level
        ++ [']']
  | .object [] => "\x7b\x7d".toList
  | .object (m :: ms) =>
      '\x7b' :: newline (level + 1) ++ member (level + 1) m
        ++ members (level + 1) ms
        ++ newline level ++ ['\x7d']

/-- The items after the first. -/
def items (level : Nat) : List Json → List Char
  | [] => []
  | v :: vs => ',' :: newline level ++ value level v ++ items level vs

def member (level : Nat) : String × Json → List Char
  | (name, v) => quotedText name ++ ':' :: ' ' :: value level v

/-- The members after the first. -/
def members (level : Nat) : List (String × Json) → List Char
  | [] => []
  | m :: ms => ',' :: newline level ++ member level m ++ members level ms

end

end Printer

def write (v : Json) : String := String.ofList (Printer.value 0 v)

end Cutlist.Json
