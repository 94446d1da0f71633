import Cutlist.Text.Numeral

/-!
# Arguments of a command

The words of a command line are switches, perhaps with values, and plain words.
A switch may be cut short as long as only one begins like it, and its value may
follow an equals sign or be the next plain word. After two dashes on their own
every word is plain. A word that begins with a dash is plain if it is a negative
number or holds a space.
-/

namespace Cutlist.CommandLine

/-- A switch with its spellings, the first of which is its name. -/
structure Switch where
  name : String
  others : List String := []
  takesValue : Bool := false
  deriving DecidableEq

/-- The switches of a command, and its plain word if it needs one. -/
structure Grammar where
  switches : List Switch
  plainWord : Option String := none

/-- What a switch has in its own word: a value after an equals sign, or letters
right behind its own. -/
inductive Attached where
  | value (text : String)
  | letters (text : String)
  deriving DecidableEq

/-- What a word is. -/
inductive Word where
  | plain (text : String)
  | twoDashes
  | switch (switch : Switch) (attached : Option Attached)
  | unknown (text : String)
  | ambiguous
  deriving DecidableEq

/-- One finding in a command line: something given by name, a word that has no
place, or a fault. -/
inductive Finding where
  | given (name : String) (value : String)
  | stray (text : String)
  | fault
  deriving DecidableEq

namespace Grammar

def spellings (g : Grammar) : List (String × Switch) :=
  g.switches.flatMap fun s =>
    (s.name :: s.others).map fun spelling => (spelling, s)

/-! ## Telling words apart -/

/-- The text before an equals sign, and the text after it if there is one. -/
def splitValue (cs : List Char) : List Char × Option (List Char) :=
  match cs.dropWhile (· != '=') with
  | _ :: value => (cs.takeWhile (· != '='), some value)
  | [] => (cs, none)

/-- A negative number: digits, with a point before the last of them or none. A
line feed may follow. -/
def isNegativeNumber (cs : List Char) : Bool :=
  match cs with
  | '-' :: r =>
      let r := if r.getLast? == some '\n' then r.dropLast else r
      match r.dropWhile Text.isNumeral with
      | [] => !r.isEmpty
      | '.' :: fraction => !fraction.isEmpty && fraction.all Text.isNumeral
      | _ => false
  | _ => false

/-- The switches that a word may stand for. After one dash the first letter may
be a switch and the rest its value. -/
def candidates (g : Grammar) (cs : List Char) : List Word :=
  let (front, value) := splitValue cs
  match cs with
  | '-' :: '-' :: _ => g.spellings.filterMap fun (spelling, s) =>
      if front.isPrefixOf spelling.toList then
        some (.switch s (value.map fun v => .value (String.ofList v)))
      else none
  | _ => g.spellings.filterMap fun (spelling, s) =>
      if spelling.toList = cs.take 2 then
        some (.switch s (some (.letters (String.ofList (cs.drop 2)))))
      else if cs.isPrefixOf spelling.toList then some (.switch s none)
      else none

/-- The switch of a word that spells it out. -/
def spelledOut? (g : Grammar) (word : String) : Option Word :=
  let (front, value) := splitValue word.toList
  match g.spellings.lookup word, value,
    g.spellings.lookup (String.ofList front) with
  | some s, _, _ => some (.switch s none)
  | none, some v, some s => some (.switch s (some (.value (String.ofList v))))
  | _, _, _ => none

/-- What a word is that is not two dashes. -/
def classify (g : Grammar) (word : String) : Word :=
  match word.toList with
  | '-' :: c :: r =>
      match g.spelledOut? word with
      | some w => w
      | none => match g.candidates ('-' :: c :: r) with
        | [w] => w
        | [] =>
            if isNegativeNumber word.toList || word.toList.contains ' ' then
              .plain word
            else .unknown word
        | _ => .ambiguous
  | _ => .plain word

/-- What the words of a command line are. -/
def words (g : Grammar) : List String → List Word
  | [] => []
  | "--" :: r => .twoDashes :: r.map .plain
  | a :: r => g.classify a :: g.words r

/-! ## Putting words together -/

/-- What letters right behind a switch of one letter come to: more such switches
without a value, up to a letter that is none. A dash or an equals sign among the
switches is a fault. -/
def cluster (g : Grammar) : List Char → Option (List Finding)
  | [] => some []
  | c :: r =>
      if c = '-' ∨ c = '=' then none
      else match g.spellings.lookup (String.ofList ['-', c]) with
        | some s => (g.cluster r).map (.given s.name "" :: ·)
        | none => some [.stray (String.ofList ('-' :: c :: r))]

/-- A switch with what its word has for it. -/
def switchFindings (g : Grammar) (s : Switch) (attached : Option Attached) :
    List Finding :=
  match s.takesValue, attached with
  | true, some (.value v) | true, some (.letters v) => [.given s.name v]
  | true, none => [.fault]
  | false, none => [.given s.name ""]
  | false, some (.value _) => [.fault]
  | false, some (.letters v) => match g.cluster v.toList with
    | some found => .given s.name "" :: found
    | none => [.fault]

/-- What words come to; `wanted` is the plain word that is still needed. Two
dashes next to it go with it. -/
def findings (g : Grammar) (wanted : Option String) : List Word → List Finding
  | [] => []
  | .switch s none :: .plain v :: r =>
      if s.takesValue then .given s.name v :: g.findings wanted r
      else g.switchFindings s none ++ g.findings wanted (.plain v :: r)
  | .switch s attached :: r =>
      g.switchFindings s attached ++ g.findings wanted r
  | .twoDashes :: .plain t :: r => match wanted with
    | some name => .given name t :: g.findings none r
    | none => .stray "--" :: g.findings none (.plain t :: r)
  | .plain t :: .twoDashes :: r => match wanted with
    | some name => .given name t :: g.findings none r
    | none => .stray t :: g.findings none (.twoDashes :: r)
  | .plain t :: r => match wanted with
    | some name => .given name t :: g.findings none r
    | none => .stray t :: g.findings none r
  | .twoDashes :: r => .stray "--" :: g.findings wanted r
  | .unknown t :: r => .stray t :: g.findings wanted r
  | .ambiguous :: r => .fault :: g.findings wanted r
  termination_by ws => ws.length

end Grammar

/-! ## Taking in what is found -/

/-- Why a command line is not carried out: help was asked for, or
it is wrong. -/
inductive Usage where
  | help
  | wrong
  deriving DecidableEq

/-- The name of the switch that asks for help. -/
def helpSwitch : Switch := { name := "--help", others := ["-h"] }

/-- Takes in findings one after another, until one asks for help or is wrong. -/
def takeIn {σ : Type} (set : String → String → σ → Option σ) :
    List Finding → σ → Except Usage (σ × Bool)
  | [], s => .ok (s, true)
  | .given name value :: r, s =>
      if name = helpSwitch.name then .error .help
      else match set name value s with
        | some s => takeIn set r s
        | none => .error .wrong
  | .stray _ :: r, s => (takeIn set r s).map fun (s, _) => (s, false)
  | .fault :: _, _ => .error .wrong

/-- What a command line comes to by a grammar, and whether every word
has its place. A word that may stand for several switches is found
out before all else. -/
def Grammar.parse {σ : Type} (g : Grammar)
    (set : String → String → σ → Option σ) (start : σ) (args : List String) :
    Except Usage (σ × Bool) :=
  let words := g.words args
  if words.contains .ambiguous then .error .wrong
  else takeIn set (g.findings g.plainWord words) start

end Cutlist.CommandLine
