import Cutlist.Binary64

/-!
# Stretches of a recording in order of time

Ranges are put in order of their start, and ranges that begin together keep the
order in which they were made. A start that is not a number stands nowhere in
that order; then each range is put into the ranges before it at the place that
halving finds, which is the same order whenever every start is a number.
-/

namespace Cutlist

/-- A stretch of the recording, in seconds. -/
structure Range where
  start : Binary64
  stop : Binary64
  deriving DecidableEq

namespace Range

def before (a b : Range) : Bool := decide (a.start < b.start)

/-- Where a range belongs among ranges in order: after each that does not begin
later, as far as halving between `low` and `high` finds out. -/
def place (r : Range) (done : Array Range) (low high : Nat) : Nat :=
  if h : low < high then
    let middle := (low + high) / 2
    if (done[middle]?).any (r.before ·) then place r done low middle
    else place r done (middle + 1) high
  else low
termination_by high - low

/-- The ranges with one more put at its place. -/
def insert (done : List Range) (r : Range) : List Range :=
  let i := place r done.toArray 0 done.length
  done.take i ++ r :: done.drop i

/-- The longest run at the beginning in which each range stands in a relation to
the one before it, and the rest. -/
def run (follows : Range → Range → Bool) (last : Range) :
    List Range → List Range × List Range
  | [] => ([], [])
  | r :: rs =>
      if follows last r then
        let (more, rest) := run follows r rs
        (r :: more, rest)
      else ([], r :: rs)

/-- The ranges put in order one after another. A falling run at the beginning is
turned round first, a rising one is left as it is. -/
def insertAll : List Range → List Range
  | a :: b :: rs =>
      if b.before a then
        let (falling, rest) := run (fun last r => r.before last) a (b :: rs)
        rest.foldl insert (a :: falling).reverse
      else
        let (rising, rest) := run (fun last r => !r.before last) a (b :: rs)
        rest.foldl insert (a :: rising)
  | rs => rs

/-- The ranges in order of their start. -/
def sort (rs : List Range) : List Range :=
  if rs.all fun r => !r.start.isNaN then
    rs.mergeSort fun a b => decide (a.start ≤ b.start)
  else insertAll rs

end Range

end Cutlist
