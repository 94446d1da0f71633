import Cutlist.Binary64.Scaling
import Cutlist.FilterGraph.Filter

/-!
# Tempo of sound

One filter changes the tempo of sound by a factor from 0.5 to 2. A speed outside
that is a product of such factors: halved until it is at most 2, or doubled
until it is at least 0.5, with a factor for each step.
-/

namespace Cutlist.Render.Tempo

open Binary64

/-- The factors 2 that a finite speed above 2 takes, and what is left of it. -/
def halve (speed : Binary64) : List Binary64 × Binary64 :=
  if _h : speed.isFinite = true ∧ 2 < speed then
    let (factors, rest) := halve (speed / 2)
    (2 :: factors, rest)
  else ([], speed)
termination_by speed.quanta
decreasing_by exact quanta_div_two_lt _h.1 _h.2

/-- The factors 0.5 that a positive speed below 0.5 takes, and
what is left of it. -/
def double (speed : Binary64) : List Binary64 × Binary64 :=
  if _h : 0 < speed ∧ speed < 0.5 then
    let (factors, rest) := double (speed / 0.5)
    (0.5 :: factors, rest)
  else ([], speed)
termination_by speed.doublings
decreasing_by exact doublings_div_half_lt _h.1 _h.2

/-- Whether sound at a speed keeps its tempo: at a speed close to 1, or at one
that is not a positive number. -/
def keeps (speed : Binary64) : Bool :=
  !speed.isFinite || decide (speed ≤ 0)
    || decide ((speed - 1).abs < Timeline.speedTolerance)

/-- The factors of a speed; none when the tempo is kept. -/
def factors (speed : Binary64) : List Binary64 :=
  if keeps speed then []
  else
    let (twos, rest) := halve speed
    let (halves, last) := double rest
    twos ++ halves ++ [last]

/-- The filters of a list of factors: one decimal for all but the
last, which has five. -/
def filtersOf : List Binary64 → List FilterGraph.Filter
  | [] => []
  | [last] => [.tempo 5 last]
  | factor :: rest => .tempo 1 factor :: filtersOf rest

/-- The filters that bring sound to a speed. -/
def filters (speed : Binary64) : List FilterGraph.Filter :=
  filtersOf (factors speed)

end Cutlist.Render.Tempo
