import Cutlist.FilterGraph.Filter
import Cutlist.Text.Quoted

/-!
# Filter graphs

The inputs of a command and the chains of filters between them and its outputs.
A chain takes streams or pads, runs filters one after another, and names the
pads it ends in. Fresh pads are named by a stem of letters and a number that
counts the pads of that stem, so no two are alike.

A graph is put together by `Build` actions. One that fails leaves the chains
that it added before.
-/

namespace Cutlist

namespace FilterGraph

/-- A stream of an input, or a pad that a chain ends in. -/
inductive Label where
  | input (index : Nat) (stream : Stream)
  | pad (name : String)
  deriving DecidableEq

namespace Label

def name : Label → String
  | input index .audio => s!"{index}:a"
  | input index .video => s!"{index}:v"
  | pad name => name

def isInput : Label → Bool
  | input .. => true
  | pad _ => false

def bracketed (l : Label) : String := s!"[{l.name}]"

/-- How a command names the stream that goes to the output: an input bare,
a pad in brackets. -/
def mapped (l : Label) : String := if l.isInput then l.name else l.bracketed

end Label

/-- A chain of filters. -/
structure Chain where
  inputs : List Label
  filters : List Filter
  outputs : List Label

def Chain.toText (c : Chain) : String :=
  String.join (c.inputs.map Label.bracketed)
    ++ ",".intercalate (c.filters.map Filter.toText)
    ++ String.join (c.outputs.map Label.bracketed)

/-- A file that a command reads, perhaps only from one time to another. -/
structure Input where
  path : String
  seekStart : Option Binary64 := none
  seekStop : Option Binary64 := none

end FilterGraph

open FilterGraph

/-- The inputs and chains of a command, and how many pads each
stem has named. -/
structure FilterGraph where
  inputs : List Input := []
  chains : List Chain := []
  used : List (String × Nat) := []

namespace FilterGraph

def isEmpty (g : FilterGraph) : Bool := g.chains.isEmpty

def toText (g : FilterGraph) : String :=
  ";".intercalate (g.chains.map Chain.toText)

def count (used : List (String × Nat)) (stem : String) : Nat :=
  ((used.find? (·.1 == stem)).map (·.2)).getD 0

def countUp (stem : String) : List (String × Nat) → List (String × Nat)
  | [] => [(stem, 1)]
  | (s, n) :: r =>
      if s = stem then (s, n + 1) :: r else (s, n) :: countUp stem r

/-- A stem is a word of small letters; one line break at its end
is let through. -/
def isStem (s : String) : Bool :=
  let letters := match s.toList.reverse with
    | '\n' :: r => r
    | r => r
  !letters.isEmpty && letters.all fun c => decide ('a' ≤ c) && decide (c ≤ 'z')

/-- Why a graph cannot be built. -/
inductive BuildError where
  | stem (text : String)
  | offsetKind
  | offsetTooLarge
  | colorKind
  | captionKind
  deriving DecidableEq

def BuildError.message : BuildError → String
  | .stem text => "invalid label prefix: " ++ Text.quoted text
  | .offsetKind => "an offset has to be a number"
  | .offsetTooLarge => "an offset is out of range"
  | .colorKind => "a colour has to be a text"
  | .captionKind => "a caption has to be a text"

abbrev Build := ExceptT BuildError (StateM FilterGraph)

def fresh (stem : String) : Build Label := do
  if isStem stem then
    let g ← get
    set { g with used := countUp stem g.used }
    return .pad s!"{stem}{count g.used stem}"
  else throw (.stem stem)

def addInput (input : Input) : Build Nat := do
  let g ← get
  set { g with inputs := g.inputs ++ [input] }
  return g.inputs.length

def addChain (inputs : List Label) (filters : List Filter)
    (outputs : List Label) : Build Unit :=
  modify fun g => { g with chains := g.chains ++ [⟨inputs, filters, outputs⟩] }

/-- Adds a chain from several labels to a fresh pad. -/
def join (inputs : List Label) (filters : List Filter) (stem : String) :
    Build Label := do
  let output ← fresh stem
  addChain inputs filters [output]
  return output

/-- Adds a chain from one label to a fresh pad. -/
def chain (source : Label) (filters : List Filter) (stem : String) :
    Build Label :=
  join [source] filters stem

end FilterGraph

end Cutlist
