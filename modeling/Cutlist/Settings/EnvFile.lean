import Cutlist.Text.Blank

/-!
# Files of variables

A file of variables has a `NAME=value` on each line, perhaps after the word
`export`, and comments after a number sign. A value between quotes may hold line
feeds and escapes. A value may refer to a variable by `${NAME}`, with a standard
after `:-`. A line that is none of this is passed over.
-/

namespace Cutlist.Settings.EnvFile

/-- A variable and its value as written; without an equals sign
there is no value. -/
structure Binding where
  name : String
  value : Option String
  deriving DecidableEq

def isGap (c : Char) : Bool := Text.isBlank c && c != '\n' && c != '\r'

def isLineEnd (c : Char) : Bool := c == '\n' || c == '\r'

/-- Without the white space in front that stays in the line. -/
def skipGap (cs : List Char) : List Char := cs.dropWhile isGap

/-- Without the word `export` in front. -/
def skipExport (cs : List Char) : List Char :=
  let word := "export".toList
  if word.isPrefixOf cs && (cs.drop word.length).head?.any isGap then
    skipGap (cs.drop word.length)
  else cs

def nextLine (cs : List Char) : List Char :=
  (cs.dropWhile (!isLineEnd ·)).drop 1

/-- Reading comes to a halt at a place in the text. -/
abbrev Halting := Except (List Char)

/-- The end of a line, before which only a comment may be left. -/
def endLine (cs : List Char) : Halting (Unit × List Char) :=
  let rest := match skipGap cs with
    | '#' :: r => r.dropWhile (!isLineEnd ·)
    | _ => cs
  match skipGap rest with
  | [] => .ok ((), [])
  | c :: r => if isLineEnd c then .ok ((), r) else .error cs

/-- The text between quotes, after the first of them, and what follows. A quote
with a backslash before it is part of the text. -/
def quoted? (quote : Char) : List Char → Option (List Char × List Char)
  | [] => none
  | '\\' :: c :: r =>
      if c = quote then
        match quoted? quote r with
        | some (text, rest) => some ('\\' :: c :: text, rest)
        | none => some (['\\'], r)
      else (quoted? quote (c :: r)).map fun (text, rest) => ('\\' :: text, rest)
  | c :: r =>
      if c = quote then some ([], r)
      else (quoted? quote r).map fun (text, rest) => (c :: text, rest)

/-- The character that an escape stands for, between double quotes. -/
def escaped? : Char → Option Char
  | '\\' => some '\\'
  | '\'' => some '\''
  | '"' => some '"'
  | 'a' => some '\x07'
  | 'b' => some '\x08'
  | 'f' => some '\x0c'
  | 'n' => some '\n'
  | 'r' => some '\r'
  | 't' => some '\t'
  | 'v' => some '\x0b'
  | _ => none

/-- The character that an escape stands for, between single quotes. -/
def plainEscaped? (c : Char) : Option Char :=
  if c == '\\' || c == '\'' then some c else none

def unescape (escape : Char → Option Char) : List Char → List Char
  | '\\' :: c :: r => match escape c with
    | some d => d :: unescape escape r
    | none => '\\' :: unescape escape (c :: r)
  | c :: r => c :: unescape escape r
  | [] => []

/-- A value without the comment after it, which white space has to precede. -/
def withoutComment : List Char → List Char
  | [] => []
  | c :: r =>
      if Text.isBlank c && (r.dropWhile Text.isBlank).head? == some '#' then []
      else c :: withoutComment r

def quotedValue (quote : Char) (escape : Char → Option Char) (cs : List Char) :
    Halting (List Char × List Char) :=
  match quoted? quote cs with
  | some (text, rest) => .ok (unescape escape text, rest)
  | none => .error (quote :: cs)

def value : List Char → Halting (List Char × List Char)
  | '\'' :: r => quotedValue '\'' plainEscaped? r
  | '"' :: r => quotedValue '"' escaped? r
  | cs =>
      let line := withoutComment (cs.takeWhile (!isLineEnd ·))
      .ok ((line.reverse.dropWhile Text.isBlank).reverse,
        cs.dropWhile (!isLineEnd ·))

def name (cs : List Char) : Halting (String × List Char) :=
  match cs with
  | '\'' :: r => match r.takeWhile (· != '\''), r.dropWhile (· != '\'') with
    | c :: text, _ :: rest => .ok (String.ofList (c :: text), rest)
    | _, _ => .error cs
  | cs =>
      let inName := fun c => !(Text.isBlank c || c == '=' || c == '#')
      match cs.takeWhile inName with
      | [] => .error cs
      | text => .ok (String.ofList text, cs.dropWhile inName)

/-- An equals sign and a value, or neither. -/
def assigned (cs : List Char) : Halting (Option String × List Char) :=
  match skipGap cs with
  | '=' :: r => do
      let (text, rest) ← value (skipGap r)
      return (some (String.ofList text), rest)
  | rest => .ok (none, rest)

def binding (cs : List Char) : Halting (Binding × List Char) := do
  let (name, cs) ← name (skipExport cs)
  let (value, cs) ← assigned cs
  let ((), cs) ← endLine cs
  return (⟨name, value⟩, cs)

/-- The bindings of a text. Where reading comes to a halt, the rest of the line
is passed over. -/
def bindings : Nat → List Char → List Binding
  | 0, _ => []
  | fuel + 1, cs =>
      match cs.dropWhile Text.isBlank with
      | [] => []
      | c :: r => match binding (c :: r) with
        | .ok (b, rest) => b :: bindings fuel rest
        | .error rest => bindings fuel (nextLine rest)

/-- A reference at the beginning of a text, after the dollar sign and the brace:
its name, its standard, and what follows. -/
def reference? (cs : List Char) : Option (String × Option String × List Char) :=
  let inName := fun c => c != '}' && c != ':'
  let name := String.ofList (cs.takeWhile inName)
  match cs.dropWhile inName with
  | '}' :: r => some (name, none, r)
  | ':' :: '-' :: r => match r.dropWhile (· != '}') with
    | _ :: rest =>
        some (name, some (String.ofList (r.takeWhile (· != '}'))), rest)
    | [] => none
  | _ => none

def expand (known : List (String × Option String)) : Nat → List Char → List Char
  | 0, cs => cs
  | _ + 1, [] => []
  | fuel + 1, '$' :: '{' :: r => match reference? r with
    | some (name, standard, rest) =>
        (((known.lookup name).getD standard).getD "").toList
          ++ expand known fuel rest
    | none => '$' :: expand known fuel ('{' :: r)
  | fuel + 1, c :: r => c :: expand known fuel r

/-- The variables with one of them set; it keeps its place. -/
def set (name : String) (value : Option String) :
    List (String × Option String) → List (String × Option String)
  | [] => [(name, value)]
  | (n, v) :: r =>
      if n = name then (n, value) :: r else (n, v) :: set name value r

/-- The variables of a file, each expanded by those before it, then by those of
the surroundings. -/
def resolve (surroundings : List (String × Option String)) (bs : List Binding) :
    List (String × Option String) :=
  bs.foldl (fun done b =>
    set b.name (b.value.map fun text => String.ofList
      (expand (done ++ surroundings) (text.length + 1) text.toList)) done) []

def read (surroundings : List (String × String)) (text : String) :
    List (String × Option String) :=
  resolve (surroundings.map fun (n, v) => (n, some v))
    (bindings (text.length + 1) text.toList)

end Cutlist.Settings.EnvFile
