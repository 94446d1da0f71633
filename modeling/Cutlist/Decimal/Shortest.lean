import Cutlist.Decimal.Fixed

/-!
# The fewest digits that read back

Every finite number has an interval of reals that round to it. For one, two, …
seventeen digits the two neighbours of the exact value on that decimal grid are
tried, and the first grid with a neighbour inside the interval wins; of two
neighbours inside the nearer, of two equally near the even one.
-/

namespace Cutlist.Decimal

/-- Digits after a point that is moved by a power of ten:
`0.d₁d₂… * 10 ^ point`. -/
structure Scaled where
  digits : List Char
  point : Int
  deriving DecidableEq

namespace Scaled

/-- `coefficient * 10 ^ exponent`, without zeros at the end. -/
def ofCoefficient (coefficient : Nat) (exponent : Int) : Scaled :=
  let all := Decimal.digits coefficient
  ⟨(all.reverse.dropWhile (· == '0')).reverse, all.length + exponent⟩

/-- Written without an exponent; a whole number gets no point. -/
def positional (d : Scaled) : List Char :=
  if d.point ≤ 0 then
    '0' :: '.' :: (List.replicate (-d.point).toNat '0' ++ d.digits)
  else
    let before := d.point.toNat
    if d.digits.length ≤ before then
      d.digits ++ List.replicate (before - d.digits.length) '0'
    else d.digits.take before ++ '.' :: d.digits.drop before

/-- Written with one digit before the point and an exponent of at
least two digits. -/
def scientific (d : Scaled) : List Char :=
  let exponent := d.point - 1
  let tail := d.digits.drop 1
  d.digits.take 1 ++ (if tail.isEmpty then [] else '.' :: tail)
    ++ 'e' :: (if exponent < 0 then '-' else '+') :: padded 2 exponent.natAbs

/-- Positional from `0.0001` up to sixteen digits before the point, and then
with a point in every case; scientific otherwise. -/
def general (d : Scaled) : List Char :=
  if -4 < d.point ∧ d.point ≤ 16 then
    let text := d.positional
    if text.contains '.' then text else text ++ ['.', '0']
  else d.scientific

end Scaled

end Cutlist.Decimal

namespace Cutlist.Binary64

open Decimal

/-- The power of ten of the leading digit. The factor `10 ^ 400` brings every
number but zero above one. -/
def leadingExponent (q : Nat) : Int :=
  ((digits (q * Nat.pow 10 400 / unit)).length : Int) - 401

/-- The reals that round to `q` quanta, in quarter quanta: from `low` to `high`,
with both ends when the significand is even. -/
structure Basin where
  low : Nat
  high : Nat
  ends : Bool

/-- Below a power of two the spacing is half of that above, as long as it is a
whole quantum. -/
def basin (q : Nat) : Basin :=
  let gap := spacing q
  let below := if 1 < gap ∧ q = Nat.pow 2 q.log2 then gap else 2 * gap
  ⟨4 * q - below, 4 * q + 2 * gap, q / gap % 2 == 0⟩

/-- Whether `num / den` quarter quanta lie in the basin. -/
def Basin.contains (b : Basin) (num den : Nat) : Bool :=
  if b.ends then b.low * den ≤ num && num ≤ b.high * den
  else b.low * den < num && num < b.high * den

/-- The neighbour of the exact value on the grid of `10 ^ exponent` that
reads back, if any. -/
def onGrid? (q : Nat) (exponent : Int) : Option Scaled :=
  let finer := Nat.pow 10 (-exponent).toNat
  let coarser := Nat.pow 10 exponent.toNat
  let num := q * finer
  let den := unit * coarser
  let reads := fun c => (basin q).contains (4 * c * den) finer
  let lower := num / den
  let twice := 2 * (num % den)
  let lowerFirst := twice < den || (twice == den && lower % 2 == 0)
  let ordered := if lowerFirst then [lower, lower + 1] else [lower + 1, lower]
  (ordered.find? reads).map (Scaled.ofCoefficient · exponent)

/-- The shortest decimal that reads back as `q` quanta. -/
def shortest (q : Nat) : Scaled :=
  if q = 0 then ⟨['0'], 1⟩
  else
    let leading := leadingExponent q
    ((List.range 17).findSome? fun (k : Nat) => onGrid? q (leading - k)).getD
      (Scaled.ofCoefficient (q / unit) 0)

/-- The number in the fewest digits that read back; a whole number keeps a zero
after the point. -/
def toShortest : Binary64 → String
  | .finite s q _ => String.ofList (minus s ++ (shortest q).general)
  | .infinite s => String.ofList (minus s ++ ['i', 'n', 'f'])
  | .nan => "nan"

/-- The number as a plain decimal, as seek times and scale factors need it:
never an exponent, and no point in a whole number, whose digits are exact. -/
def toPlain : Binary64 → String
  | .finite s q _ =>
      if q % unit = 0 then toString (signed s (q / unit))
      else String.ofList (minus s ++ (shortest q).positional)
  | .infinite s => String.ofList (minus s ++ "Infinity".toList)
  | .nan => "NaN"

end Cutlist.Binary64
