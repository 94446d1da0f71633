import Cutlist.Binary64.Scaling
import Mathlib.Algebra.Order.Field.Rat
import Mathlib.Tactic.GCongr
import Mathlib.Tactic.NormNum
import Mathlib.Tactic.Positivity

/-!
# Rounding keeps order

The times of a project are compared after a sum or a difference has been
rounded, and what is proved of a timeline speaks of the exact times. The two
agree because rounding is monotone and leaves alone what it can represent: an
exact result that is not above a number is not above it after rounding, and
the same from below. Every comparison with a number of the type is therefore
one of exact numbers.

Exact numbers are counted in quanta with their sign, `ticks`, so that what is
left to show is a matter of whole numbers.
-/

namespace Cutlist.Binary64

/-! ## The nearest number -/

theorem le_roundHalfEven {k num den : Nat} (hden : 0 < den)
    (h : k * den ≤ num) : k ≤ roundHalfEven num den := by
  have hq : k ≤ num / den := (Nat.le_div_iff_mul_le hden).2 h
  unfold roundHalfEven
  grind

theorem roundHalfEven_le_of_le {k num den : Nat} (hden : 0 < den)
    (h : num ≤ k * den) : roundHalfEven num den ≤ k := by
  rcases Nat.lt_or_ge num (k * den) with hlt | hge
  · have hq : num / den < k := (Nat.div_lt_iff_lt_mul hden).2 hlt
    have := roundHalfEven_le num den
    omega
  · obtain rfl : num = k * den := by omega
    exact Nat.le_of_eq (roundHalfEven_mul k den hden)

theorem spacing_dvd_spacing {m n : Nat} (h : m.log2 ≤ n.log2) :
    spacing m ∣ spacing n := Nat.pow_dvd_pow 2 (by omega)

/-- What can be represented has at least as many leading zeros as a larger
quotient, or stands on the quotient's own grid. -/
theorem le_nearest {m num den : Nat} (hden : 0 < den) (hm : spacing m ∣ m)
    (h : m * den ≤ num) : m ≤ nearest num den := by
  have hgap := spacing_pos (num / den)
  have onGrid : ∀ k, k * spacing (num / den) * den ≤ num →
      k * spacing (num / den) ≤ nearest num den := by
    intro k hk
    refine Nat.mul_le_mul_right _ (le_roundHalfEven (Nat.mul_pos hden hgap) ?_)
    rw [Nat.mul_comm den, ← Nat.mul_assoc]
    exact hk
  have hmq : m ≤ num / den := (Nat.le_div_iff_mul_le hden).2 h
  rcases Nat.eq_zero_or_pos m with rfl | hpos
  · exact Nat.zero_le _
  rcases Nat.lt_or_ge m.log2 (num / den).log2 with hlt | hge
  · -- A power of two that the quotient reaches lies in between.
    have hq0 : num / den ≠ 0 := by omega
    have hpow : 2 ^ (num / den).log2 ≤ num / den := Nat.log2_self_le hq0
    obtain ⟨k, hk⟩ : spacing (num / den) ∣ 2 ^ (num / den).log2 :=
      Nat.pow_dvd_pow 2 (by omega)
    have hreach := onGrid k (by
      rw [Nat.mul_comm k, ← hk]
      exact (Nat.le_div_iff_mul_le hden).1 hpow)
    rw [Nat.mul_comm k, ← hk] at hreach
    calc m ≤ 2 ^ (m.log2 + 1) := Nat.le_of_lt Nat.lt_log2_self
      _ ≤ 2 ^ (num / den).log2 := Nat.pow_le_pow_right (by decide) hlt
      _ ≤ nearest num den := hreach
  · obtain ⟨k, hk⟩ := Nat.dvd_trans (spacing_dvd_spacing hge) hm
    rw [Nat.mul_comm] at hk
    have hreach := onGrid k (by rw [← hk]; exact h)
    rw [← hk] at hreach
    exact hreach

theorem nearest_le {m num den : Nat} (hden : 0 < den) (hm : spacing m ∣ m)
    (h : num ≤ m * den) : nearest num den ≤ m := by
  have hgap := spacing_pos (num / den)
  have hqm : num / den ≤ m := by
    rw [← Nat.mul_div_cancel m hden]
    exact Nat.div_le_div_right h
  have hlog : (num / den).log2 ≤ m.log2 := by
    rcases Nat.eq_zero_or_pos (num / den) with hz | hpos
    · rw [hz]; exact Nat.zero_le _
    · exact log2_mono (by omega) hqm
  obtain ⟨k, hk⟩ := Nat.dvd_trans (spacing_dvd_spacing hlog) hm
  rw [Nat.mul_comm] at hk
  have hround : roundHalfEven num (den * spacing (num / den)) ≤ k := by
    refine roundHalfEven_le_of_le (Nat.mul_pos hden hgap) ?_
    rw [Nat.mul_comm den, ← Nat.mul_assoc, ← hk]
    exact h
  rw [nearest, hk]
  exact Nat.mul_le_mul_right _ hround

/-! ## Exact numbers -/

/-- Quanta with their sign. The infinities stand beyond every finite number;
not-a-number stands nowhere and is set aside where it could matter. -/
def ticks : Binary64 → Int
  | .finite s q _ => signed s q
  | .infinite s => signed s limit
  | .nan => 0

/-- The number itself, in place of what a comparison or a sum makes of it. -/
def value (a : Binary64) : ℚ := (a.ticks : ℚ) / unit

theorem isNaN_of_isFinite {a : Binary64} (h : a.isFinite = true) :
    a.isNaN = false := by
  cases a with
  | finite s q hq => rfl
  | infinite s => cases h
  | nan => cases h

theorem rank_eq_ticks {a : Binary64} (h : a.isNaN = false) :
    a.rank = some a.ticks := by
  cases a with
  | finite s q hq => cases s <;> rfl
  | infinite s => cases s <;> rfl
  | nan => cases h

theorem lt_iff_ticks {a b : Binary64} (ha : a.isNaN = false)
    (hb : b.isNaN = false) : a < b ↔ a.ticks < b.ticks := by
  change Below a b ↔ _
  rw [Below, rank_eq_ticks ha, rank_eq_ticks hb]

theorem le_iff_ticks {a b : Binary64} (ha : a.isNaN = false)
    (hb : b.isNaN = false) : a ≤ b ↔ a.ticks ≤ b.ticks := by
  change AtMost a b ↔ _
  rw [AtMost, rank_eq_ticks ha, rank_eq_ticks hb]

/-- Away from zero, where the sign of a number shows in its ticks, equal ticks
are the same number. -/
theorem eq_of_ticks_eq {a b : Binary64} (ha : a.isFinite = true)
    (hb : b.isFinite = true) (h : a.ticks = b.ticks) (hne : b.ticks ≠ 0) :
    a = b := by
  cases a with
  | finite s p hp =>
      cases b with
      | finite t q hq =>
          simp only [ticks, signed] at h hne
          have hsame : s = t ∧ p = q := by
            revert h hne
            cases s <;> cases t <;> simp <;> omega
          obtain ⟨rfl, rfl⟩ := hsame
          rfl
      | infinite t => cases hb
      | nan => cases hb
  | infinite s => cases ha
  | nan => cases ha

theorem value_lt_value {a b : Binary64} :
    a.value < b.value ↔ a.ticks < b.ticks := by
  have hunit : (0 : ℚ) < unit := by exact_mod_cast unit_pos
  rw [value, value, div_lt_div_iff_of_pos_right hunit]
  exact Int.cast_lt

theorem value_le_value {a b : Binary64} :
    a.value ≤ b.value ↔ a.ticks ≤ b.ticks := by
  have hunit : (0 : ℚ) < unit := by exact_mod_cast unit_pos
  rw [value, value, div_le_div_iff_of_pos_right hunit]
  exact Int.cast_le

theorem value_lt_add {a b c : Binary64} :
    a.value < b.value + c.value ↔ a.ticks < b.ticks + c.ticks := by
  have hunit : (0 : ℚ) < unit := by exact_mod_cast unit_pos
  rw [value, value, value, ← add_div, div_lt_div_iff_of_pos_right hunit]
  exact_mod_cast Iff.rfl

theorem sub_lt_value {a b c : Binary64} :
    a.value - b.value < c.value ↔ a.ticks < c.ticks + b.ticks := by
  rw [sub_lt_iff_lt_add]
  exact value_lt_add

/-! ## Sums and differences -/

theorem ticks_ofQuotient (s : Bool) (num den : Nat) :
    (ofQuotient s num den).ticks = signed s (min (nearest num den) limit) := by
  unfold ofQuotient
  split
  · next h => rw [Nat.min_eq_left (Nat.le_of_lt h)]; rfl
  · next h => rw [Nat.min_eq_right (Nat.le_of_not_lt h)]; rfl

theorem isNaN_ofQuotient (s : Bool) (num den : Nat) :
    (ofQuotient s num den).isNaN = false := by
  unfold ofQuotient
  split <;> rfl

theorem nearest_zero : nearest 0 1 = 0 :=
  Nat.le_zero.1 (nearest_le (by decide) (Nat.dvd_zero _) (Nat.le_refl _))

/-- The sum of finite numbers is the nearest number to the exact sum. -/
theorem ticks_add {a b : Binary64} (ha : a.isFinite = true)
    (hb : b.isFinite = true) :
    (a + b).ticks = signed (decide (a.ticks + b.ticks < 0))
      (min (nearest (a.ticks + b.ticks).natAbs 1) limit) := by
  cases a with
  | finite s p hp =>
      cases b with
      | finite t q hq =>
          change (add _ _).ticks = signed (decide (signed s p + signed t q < 0))
            (min (nearest (signed s p + signed t q).natAbs 1) limit)
          unfold add
          by_cases hzero : signed s p + signed t q = 0
          · simp only [hzero, if_true, Int.natAbs_zero, nearest_zero,
              Nat.zero_min]
            cases s <;> cases t <;> rfl
          · simp only [hzero, if_false]
            exact ticks_ofQuotient _ _ _
      | infinite t => cases hb
      | nan => cases hb
  | infinite s => cases ha
  | nan => cases ha

theorem isNaN_add {a b : Binary64} (ha : a.isFinite = true)
    (hb : b.isFinite = true) : (a + b).isNaN = false := by
  cases a with
  | finite s p hp =>
      cases b with
      | finite t q hq =>
          change (add _ _).isNaN = false
          simp only [add]
          split
          · rfl
          · exact isNaN_ofQuotient _ _ _
      | infinite t => cases hb
      | nan => cases hb
  | infinite s => cases ha
  | nan => cases ha

theorem signed_min_nearest_ge {s : Bool} {m : Nat} {sum : Int}
    (hm : Representable m) (h : signed s m ≤ sum) :
    signed s m ≤ signed (decide (sum < 0))
      (min (nearest sum.natAbs 1) limit) := by
  have hlimit := hm.lt_limit
  by_cases hneg : sum < 0
  · -- The number is negative too, and at least as far from zero.
    simp only [hneg, decide_true, signed, if_true]
    cases s with
    | true =>
        simp only [signed, if_true] at h ⊢
        have hle : nearest sum.natAbs 1 ≤ m :=
          nearest_le (by decide) hm.spacing_dvd (by omega)
        omega
    | false =>
        simp only [signed, Bool.false_eq_true, if_false] at h
        omega
  · simp only [hneg, decide_false, signed, Bool.false_eq_true, if_false]
    cases s with
    | true => simp only [if_true]; omega
    | false =>
        simp only [signed, Bool.false_eq_true, if_false] at h ⊢
        have hle : m ≤ nearest sum.natAbs 1 :=
          le_nearest (by decide) hm.spacing_dvd (by omega)
        omega

/-- A number that the exact sum reaches, the rounded sum reaches. -/
theorem le_ticks_add {a b c : Binary64} (ha : a.isFinite = true)
    (hb : b.isFinite = true) (hc : c.isFinite = true)
    (h : c.ticks ≤ a.ticks + b.ticks) : c.ticks ≤ (a + b).ticks := by
  rw [ticks_add ha hb]
  cases c with
  | finite s m hm => exact signed_min_nearest_ge hm h
  | infinite s => cases hc
  | nan => cases hc

theorem ticks_neg (a : Binary64) : (-a).ticks = -a.ticks := by
  change (neg a).ticks = _
  cases a with
  | finite s q hq => cases s <;> simp [neg, ticks, signed]
  | infinite s => cases s <;> simp [neg, ticks, signed]
  | nan => rfl

theorem isFinite_neg (a : Binary64) : (-a).isFinite = a.isFinite := by
  change (neg a).isFinite = _
  cases a <;> rfl

/-- Rounding treats both signs alike. -/
theorem signed_min_nearest_neg (sum : Int) :
    signed (decide (-sum < 0)) (min (nearest sum.natAbs 1) limit) =
      -signed (decide (sum < 0)) (min (nearest sum.natAbs 1) limit) := by
  rcases Int.lt_trichotomy sum 0 with h | h | h
  · rw [decide_eq_true h, decide_eq_false (show ¬ -sum < 0 by omega)]
    exact (Int.neg_neg _).symm
  · rw [h, Int.natAbs_zero, nearest_zero, Nat.zero_min]
    rfl
  · rw [decide_eq_false (show ¬ sum < 0 by omega),
      decide_eq_true (show -sum < 0 by omega)]
    rfl

theorem ticks_add_neg {a b : Binary64} (ha : a.isFinite = true)
    (hb : b.isFinite = true) : (-a + -b).ticks = -(a + b).ticks := by
  have hna : (-a).isFinite = true := (isFinite_neg a).trans ha
  have hnb : (-b).isFinite = true := (isFinite_neg b).trans hb
  rw [ticks_add hna hnb, ticks_add ha hb, ticks_neg, ticks_neg, ← Int.neg_add,
    Int.natAbs_neg]
  exact signed_min_nearest_neg _

/-- A number that the exact sum does not exceed, the rounded sum does not
exceed. -/
theorem ticks_add_le {a b c : Binary64} (ha : a.isFinite = true)
    (hb : b.isFinite = true) (hc : c.isFinite = true)
    (h : a.ticks + b.ticks ≤ c.ticks) : (a + b).ticks ≤ c.ticks := by
  have hna : (-a).isFinite = true := (isFinite_neg a).trans ha
  have hnb : (-b).isFinite = true := (isFinite_neg b).trans hb
  have hnc : (-c).isFinite = true := (isFinite_neg c).trans hc
  have := le_ticks_add hna hnb hnc (by simp only [ticks_neg]; omega)
  rw [ticks_add_neg ha hb, ticks_neg] at this
  omega

theorem isNaN_sub {a b : Binary64} (ha : a.isFinite = true)
    (hb : b.isFinite = true) : (a - b).isNaN = false :=
  isNaN_add ha ((isFinite_neg b).trans hb)

theorem le_ticks_sub {a b c : Binary64} (ha : a.isFinite = true)
    (hb : b.isFinite = true) (hc : c.isFinite = true)
    (h : c.ticks ≤ a.ticks - b.ticks) : c.ticks ≤ (a - b).ticks :=
  le_ticks_add (b := -b) ha ((isFinite_neg b).trans hb) hc
    (by rw [ticks_neg]; omega)

theorem ticks_sub_le {a b c : Binary64} (ha : a.isFinite = true)
    (hb : b.isFinite = true) (hc : c.isFinite = true)
    (h : a.ticks - b.ticks ≤ c.ticks) : (a - b).ticks ≤ c.ticks :=
  ticks_add_le (b := -b) ha ((isFinite_neg b).trans hb) hc
    (by rw [ticks_neg]; omega)

/-! ## Magnitudes -/

theorem ticks_abs (a : Binary64) : a.abs.ticks = a.ticks.natAbs := by
  cases a with
  | finite s q hq => cases s <;> simp [abs, ticks, signed]
  | infinite s => cases s <;> simp [abs, ticks, signed]
  | nan => rfl

theorem isNaN_abs (a : Binary64) : a.abs.isNaN = a.isNaN := by
  cases a <;> rfl

theorem not_le {a b : Binary64} (ha : a.isNaN = false) (hb : b.isNaN = false) :
    ¬ a ≤ b ↔ b < a := by
  rw [le_iff_ticks ha hb, lt_iff_ticks hb ha]
  exact Int.not_le

theorem not_lt {a b : Binary64} (ha : a.isNaN = false) (hb : b.isNaN = false) :
    ¬ a < b ↔ b ≤ a := by
  rw [lt_iff_ticks ha hb, le_iff_ticks hb ha]
  exact Int.not_lt

end Cutlist.Binary64
