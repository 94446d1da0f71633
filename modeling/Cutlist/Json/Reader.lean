import Cutlist.Json
import Cutlist.Decimal.Reading

/-!
# Reading JSON

A strict reader that also takes `NaN`, `Infinity` and `-Infinity`. Of members
with one name the last one counts. A fault says what was expected and how many
characters were left, from which `Json.read` finds the place.

Each step returns the characters after what it read, and never more of them than
it was given. A level of nesting takes a bracket and two steps down, so twice
the length of the text bounds them all and the reader needs no other limit.
-/

namespace Cutlist.Json

/-- What is wrong with a JSON text. -/
inductive Complaint where
  | value
  | name
  | colon
  | comma
  | unterminated
  | escape
  | codePoint
  | control
  | extra
  | byteOrderMark
  deriving DecidableEq

/-- Why a JSON text was not read. -/
inductive Reader.Stop where
  | complaint (what : Complaint) (remaining : Nat)
  | tooLong (digits : Nat)

namespace Reader

/-- Stops at the first of the given characters. -/
def stop {α : Type} (what : Complaint) (cs : List Char) : Except Stop α :=
  .error (.complaint what cs.length)

def isSpace (c : Char) : Bool := c == ' ' || c == '\t' || c == '\n' || c == '\r'

def skip (cs : List Char) : List Char := cs.dropWhile isSpace

def hexDigit? (c : Char) : Option Nat :=
  if c.isDigit then some (c.toNat - '0'.toNat)
  else if 'a' ≤ c && c ≤ 'f' then some (c.toNat - 'a'.toNat + 10)
  else if 'A' ≤ c && c ≤ 'F' then some (c.toNat - 'A'.toNat + 10)
  else none

def hex4? : List Char → Option (Nat × List Char)
  | a :: b :: c :: d :: r => do
      let n := (← hexDigit? a) * 4096 + (← hexDigit? b) * 256
        + (← hexDigit? c) * 16 + (← hexDigit? d)
      return (n, r)
  | _ => none

def isHighSurrogate (n : Nat) : Bool := 0xd800 ≤ n && n < 0xdc00

def isLowSurrogate (n : Nat) : Bool := 0xdc00 ≤ n && n < 0xe000

/-- The character of a code point; half of a surrogate pair has
none and is replaced. -/
def charOf (n : Nat) : Char := if n.isValidChar then Char.ofNat n else '\ufffd'

/-- A character given by its number, from the `u` on. At least one more
character has to follow, and a pair of surrogates is one character. -/
def codePoint (cs : List Char) : Except Stop (Char × List Char) :=
  match hex4? (cs.drop 1) with
  | some (high, r) =>
      if r.isEmpty then stop .codePoint cs
      else
        let single : Except Stop (Char × List Char) := .ok (charOf high, r)
        match r with
        | '\\' :: 'u' :: r' =>
            if isHighSurrogate high && r'.length > 4 then
              match hex4? r' with
              | some (low, rest) =>
                  if isLowSurrogate low then
                    .ok (Char.ofNat (0x10000 + (high - 0xd800) * 0x400
                      + (low - 0xdc00)), rest)
                  else single
              | none => stop .codePoint ('u' :: r')
            else single
        | _ => single
  | none => stop .codePoint cs

/-- The character that a letter after a backslash stands for. -/
def escaped? : Char → Option Char
  | '"' => some '"'
  | '\\' => some '\\'
  | '/' => some '/'
  | 'b' => some '\x08'
  | 'f' => some '\x0c'
  | 'n' => some '\n'
  | 'r' => some '\r'
  | 't' => some '\t'
  | _ => none

/-- The characters of a text after its opening quote. `opening` is the text from
that quote on. -/
def chars (opening : List Char) :
    Nat → List Char → Except Stop (List Char × List Char)
  | 0, _ => stop .unterminated opening
  | fuel + 1, cs =>
      match cs with
      | [] => stop .unterminated opening
      | '"' :: r => .ok ([], r)
      | '\\' :: [] => stop .unterminated opening
      | '\\' :: 'u' :: r => do
          let (c, rest) ← codePoint ('u' :: r)
          let (tail, rest) ← chars opening fuel rest
          return (c :: tail, rest)
      | '\\' :: c :: r =>
          match escaped? c with
          | some c => do
              let (tail, rest) ← chars opening fuel r
              return (c :: tail, rest)
          | none => stop .escape cs
      | c :: r =>
          if c.toNat < 0x20 then stop .control cs
          else do
            let (tail, rest) ← chars opening fuel r
            return (c :: tail, rest)

/-- A text, from its opening quote on. -/
def quotedText (cs : List Char) : Except Stop (String × List Char) := do
  let (content, rest) ← chars cs cs.length (cs.drop 1)
  return (String.ofList content, rest)

/-- An exponent with all its parts, and what follows; otherwise
nothing is read. -/
def exponentPart (cs : List Char) : Option (Int × List Char) :=
  match cs with
  | c :: r =>
      if c == 'e' || c == 'E' then
        let (negative, r) := Decimal.signed r
        let ds := r.takeWhile Char.isDigit
        if ds.isEmpty then none
        else some (if negative then -(Decimal.value ds : Int)
          else Decimal.value ds, r.dropWhile Char.isDigit)
      else none
  | [] => none

/-- A point with digits after it, and what follows; otherwise
nothing is read. -/
def fractionPart (cs : List Char) : Option (List Char × List Char) :=
  match cs with
  | '.' :: r =>
      let ds := r.takeWhile Char.isDigit
      if ds.isEmpty then none else some (ds, r.dropWhile Char.isDigit)
  | _ => none

/-- A number without its sign; `whole` are its first digits. -/
def magnitude (negative : Bool) (whole cs : List Char) :
    Except Stop (Json × List Char) :=
  let fraction := fractionPart cs
  let rest := (fraction.map (·.2)).getD cs
  let exponent := exponentPart rest
  if fraction.isNone && exponent.isNone then
    if whole.length > Decimal.maxDigits then .error (.tooLong whole.length)
    else .ok (.int (if negative then -(Decimal.value whole : Int)
      else Decimal.value whole), cs)
  else
    .ok (.real (Decimal.scaled negative whole ((fraction.map (·.1)).getD [])
      ((exponent.map (·.1)).getD 0)), (exponent.map (·.2)).getD rest)

/-- A number, or a complaint about a missing value. -/
def number (cs : List Char) : Except Stop (Json × List Char) :=
  let (negative, r) := match cs with
    | '-' :: r => (true, r)
    | r => (false, r)
  match r with
  | '0' :: rest => magnitude negative ['0'] rest
  | c :: _ =>
      if c.isDigit then
        magnitude negative (r.takeWhile Char.isDigit) (r.dropWhile Char.isDigit)
      else stop .value cs
  | [] => stop .value cs

def words : List (List Char × Json) :=
  [("null".toList, .null), ("true".toList, .bool true),
    ("false".toList, .bool false), ("NaN".toList, .real .nan),
    ("Infinity".toList, .real (.infinite false)),
    ("-Infinity".toList, .real (.infinite true))]

def word? (cs : List Char) : Option (Json × List Char) :=
  words.findSome? fun (w, v) =>
    if w.isPrefixOf cs then some (v, cs.drop w.length) else none

mutual

def value : Nat → List Char → Except Stop (Json × List Char)
  | 0, cs => stop .value cs
  | fuel + 1, cs =>
      match cs with
      | '"' :: _ => do
          let (s, rest) ← quotedText cs
          return (.text s, rest)
      | '[' :: r =>
          match skip r with
          | ']' :: rest => .ok (.list [], rest)
          | r => do
              let (items, rest) ← items fuel r
              return (.list items, rest)
      | '\x7b' :: r =>
          match skip r with
          | '\x7d' :: rest => .ok (.object [], rest)
          | r => do
              let (ms, rest) ← members fuel [] r
              return (.object ms, rest)
      | _ =>
          match word? cs with
          | some found => .ok found
          | none => number cs

/-- The items of a list, up to its closing bracket. -/
def items : Nat → List Char → Except Stop (List Json × List Char)
  | 0, cs => stop .value cs
  | fuel + 1, cs => do
      let (v, rest) ← value fuel cs
      match skip rest with
      | ']' :: rest => return ([v], rest)
      | ',' :: rest => do
          let (vs, rest) ← items fuel (skip rest)
          return (v :: vs, rest)
      | rest => stop .comma rest

/-- The members of an object, up to its closing brace, after those in front. -/
def members : Nat → List (String × Json) → List Char →
    Except Stop (List (String × Json) × List Char)
  | 0, _, cs => stop .value cs
  | fuel + 1, before, cs =>
      match cs with
      | '"' :: _ => do
          let (name, rest) ← quotedText cs
          match skip rest with
          | ':' :: rest => do
              let (v, rest) ← value fuel (skip rest)
              let now := put name v before
              match skip rest with
              | '\x7d' :: rest => return (now, rest)
              | ',' :: rest => members fuel now (skip rest)
              | rest => stop .comma rest
          | rest => stop .colon rest
      | _ => stop .name cs

end

/-- One value with nothing but white space around it. -/
def document (cs : List Char) : Except Stop Json :=
  match cs with
  | '\ufeff' :: _ => stop .byteOrderMark cs
  | _ => do
      let (v, rest) ← value (2 * cs.length + 2) (skip cs)
      match skip rest with
      | [] => return v
      | rest => stop .extra rest

end Reader

/-- A place in a text. Lines and columns count from one. -/
structure Place where
  line : Nat
  column : Nat
  offset : Nat
  deriving DecidableEq

def Place.after (before : List Char) : Place :=
  ⟨before.count '\n' + 1,
    (before.reverse.takeWhile (· != '\n')).length + 1, before.length⟩

/-- Why a JSON text was refused. -/
inductive ReadError where
  | complaint (what : Complaint) (place : Place)
  | tooLong (digits : Nat)
  deriving DecidableEq

def read (s : String) : Except ReadError Json :=
  let cs := s.toList
  match Reader.document cs with
  | .ok v => .ok v
  | .error (.complaint what remaining) =>
      .error (.complaint what (Place.after (cs.take (cs.length - remaining))))
  | .error (.tooLong digits) => .error (.tooLong digits)

def Complaint.message : Complaint → String
  | .value => "Expecting value"
  | .name => "Expecting property name enclosed in double quotes"
  | .colon => "Expecting ':' delimiter"
  | .comma => "Expecting ',' delimiter"
  | .unterminated => "Unterminated string starting at"
  | .escape => "Invalid \\escape"
  | .codePoint => "Invalid \\uXXXX escape"
  | .control => "Invalid control character at"
  | .extra => "Extra data"
  | .byteOrderMark => "Unexpected UTF-8 BOM (decode using utf-8-sig)"

/-- What is said of a whole number with too many digits. -/
def tooLongMessage (digits : Nat) : String :=
  s!"Exceeds the limit ({Decimal.maxDigits} digits) for integer string"
    ++ s!" conversion: value has {digits} digits;"
    ++ " use sys.set_int_max_str_digits() to increase the limit"

def ReadError.message : ReadError → String
  | .complaint what place =>
      s!"{what.message}: line {place.line} column {place.column}"
        ++ s!" (char {place.offset})"
  | .tooLong digits => tooLongMessage digits

end Cutlist.Json
