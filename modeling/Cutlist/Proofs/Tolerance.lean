import Cutlist.Proofs.Rounding
import Cutlist.Timeline

/-!
# No speed stands on its tolerance

Whether a speed counts as 1 is asked in two ways, by a strict comparison with
the tolerance from either side, so the two answers could only differ at a speed
whose distance from 1 rounds to the tolerance itself. There is none. A speed of
a half or more is a multiple of a power of two that is far coarser than the
tolerance, and so is its distance from 1, rounded or not; and a speed below a
half is too far away.
-/

namespace Cutlist

namespace Binary64

/-- What is on the grid of some number stays on it when it is rounded. -/
theorem spacing_dvd_nearest_of_dvd {m n : Nat} (h : spacing m ∣ n) :
    spacing m ∣ nearest n 1 := by
  rcases Nat.le_total n.log2 m.log2 with hfine | hcoarse
  · have hspacing := Nat.dvd_trans (spacing_dvd_spacing hfine) h
    have hexact := nearest_mul n 1 (by decide) hspacing
    rw [Nat.mul_one] at hexact
    rw [hexact]
    exact h
  · have hgrid : spacing m ∣ spacing (n / 1) := by
      rw [Nat.div_one]
      exact spacing_dvd_spacing hcoarse
    exact Nat.dvd_trans hgrid (Nat.dvd_mul_left ..)

/-- A number is on the grid of every smaller one. -/
theorem spacing_dvd_ticks {x : Binary64} (hx : x.isFinite = true) {m : Nat}
    (hm : m ≠ 0) (h : m ≤ x.ticks.natAbs) : spacing m ∣ x.ticks.natAbs := by
  cases x with
  | finite s q hq =>
      have habs : (ticks (.finite s q hq)).natAbs = q := by
        cases s <;> simp [ticks, signed]
      rw [habs] at h ⊢
      exact Nat.dvd_trans (spacing_dvd_spacing (log2_mono hm h)) hq.spacing_dvd
  | infinite s => cases hx
  | nan => cases hx

theorem natAbs_ticks_sub {a b : Binary64} (ha : a.isFinite = true)
    (hb : b.isFinite = true) : (a - b).ticks.natAbs =
      min (nearest (a.ticks - b.ticks).natAbs 1) limit := by
  have hsub := ticks_add ha ((isFinite_neg b).trans hb)
  rw [ticks_neg, ← Int.sub_eq_add_neg] at hsub
  change (a + -b).ticks.natAbs = _
  rw [hsub, signed]
  split
  · rw [Int.natAbs_neg]
    exact Int.natAbs_natCast _
  · exact Int.natAbs_natCast _

end Binary64

namespace Timeline

open Binary64

theorem speedTolerance_finite : speedTolerance.isFinite = true := by
  decide +kernel

theorem ticks_one : (1 : Binary64).ticks = unit := by decide +kernel

/-- The distance of a speed from 1 is never the tolerance. -/
theorem distance_ne_tolerance {x : Binary64} (hx : x.isFinite = true) :
    (x - 1).abs.ticks ≠ speedTolerance.ticks := by
  have hbelow : speedTolerance.ticks < halfUnit := by decide +kernel
  have hfine : ¬ (spacing halfUnit : Int) ∣ speedTolerance.ticks := by
    decide +kernel
  have hlimit : halfUnit ≤ limit := by decide +kernel
  have hone : (1 : Binary64).isFinite = true := by decide +kernel
  have hunit := unit_eq
  intro heq
  rw [ticks_abs, natAbs_ticks_sub hx hone, ticks_one] at heq
  rcases Nat.lt_or_ge x.ticks.natAbs halfUnit with hsmall | hlarge
  · have hfar : halfUnit ≤ nearest (x.ticks - unit).natAbs 1 := by
      refine le_nearest (by decide) representable_halfUnit.spacing_dvd ?_
      omega
    omega
  · have hx' : (spacing halfUnit : Int) ∣ x.ticks := Int.natCast_dvd.2
      (spacing_dvd_ticks hx (Nat.ne_of_gt halfUnit_pos) hlarge)
    have hunit' : (spacing halfUnit : Int) ∣ unit := by
      rw [hunit]
      exact Int.natCast_dvd_natCast.2
        (Nat.dvd_trans representable_halfUnit.spacing_dvd (Nat.dvd_mul_left ..))
    have hgrid := spacing_dvd_nearest_of_dvd
      (Int.natCast_dvd.1 (Int.dvd_sub hx' hunit'))
    refine hfine ?_
    rw [← heq, Nat.min_eq_left (by omega)]
    exact Int.natCast_dvd_natCast.2 hgrid

/-- The two comparisons of a speed with its tolerance agree. -/
theorem distance_lt_iff_not_lt {x : Binary64} (hx : x.isFinite = true) :
    (x - 1).abs < speedTolerance ↔ ¬ speedTolerance < (x - 1).abs := by
  have hnan : (x - 1).abs.isNaN = false := by
    rw [isNaN_abs]
    exact isNaN_sub hx (by decide +kernel)
  have htolerance := isNaN_of_isFinite speedTolerance_finite
  have hne := distance_ne_tolerance hx
  rw [lt_iff_ticks hnan htolerance, lt_iff_ticks htolerance hnan]
  omega

end Timeline

end Cutlist
