import Cutlist.Proofs.FixedPlaces

/-!
# Numbers keep their order when they are written

A number with a fixed count of places is a whole number of units of the last
place. Rounding to units is monotone, so no two numbers change places when they
are written, and what lies between two numbers that are written exactly stays
between them. Order can only be lost in one way: two numbers less than a unit
apart may be written alike.
-/

namespace Cutlist.Binary64

open Decimal

theorem roundHalfEven_mono {a b den : Nat} (hden : 0 < den) (h : a ≤ b) :
    roundHalfEven a den ≤ roundHalfEven b den := by
  rcases Nat.lt_or_eq_of_le (Nat.div_le_div_right (c := den) h) with hlt | heq
  · calc roundHalfEven a den
        ≤ a / den + 1 := roundHalfEven_le a den
      _ ≤ b / den := hlt
      _ ≤ roundHalfEven b den := le_roundHalfEven hden (Nat.div_mul_le_self b den)
  · -- Within one unit the remainders are compared.
    have hmod : a % den ≤ b % den := by
      have ha := Nat.div_add_mod a den
      have hb := Nat.div_add_mod b den
      rw [heq] at ha
      omega
    unfold roundHalfEven
    rw [heq]
    grind

/-- The units of the last place that a finite number is written as. -/
def units (places : Nat) : Binary64 → Int
  | .finite s q _ => signed s (decimalUnits places q)
  | _ => 0

theorem written_eq_units (places : Nat) (x : Binary64) :
    x.written places = x.units places / 10 ^ places := by
  cases x with
  | finite s q hq =>
      cases s with
      | true => simp [written, units, signed, sign, neg_div]
      | false => simp [written, units, signed, sign]
  | infinite s => simp [written, units]
  | nan => simp [written, units]

theorem decimalUnits_mono (places : Nat) {p q : Nat} (h : p ≤ q) :
    decimalUnits places p ≤ decimalUnits places q :=
  roundHalfEven_mono unit_pos (Nat.mul_le_mul_right _ h)

theorem decimalUnits_zero (places : Nat) : decimalUnits places 0 = 0 := by
  have hexact := roundHalfEven_mul 0 unit unit_pos
  rw [Nat.zero_mul] at hexact
  rw [decimalUnits, Nat.zero_mul, hexact]

theorem units_le_units (places : Nat) {a b : Binary64}
    (ha : a.isFinite = true) (hb : b.isFinite = true) (h : a.value ≤ b.value) :
    a.units places ≤ b.units places := by
  rw [value_le_value] at h
  cases a with
  | finite s p hp =>
      cases b with
      | finite t q hq =>
          have hup := decimalUnits_mono places (p := p) (q := q)
          have hdown := decimalUnits_mono places (p := q) (q := p)
          simp only [ticks, units, signed] at h ⊢
          cases s with
          | true =>
              cases t with
              | true =>
                  simp only [if_true] at h ⊢
                  omega
              | false =>
                  simp only [if_true, Bool.false_eq_true, if_false]
                  omega
          | false =>
              cases t with
              | true =>
                  -- Only zero is not above what has a minus, or is itself zero.
                  simp only [if_true, Bool.false_eq_true, if_false] at h ⊢
                  obtain ⟨rfl, rfl⟩ : p = 0 ∧ q = 0 := by omega
                  rw [decimalUnits_zero]
                  decide
              | false =>
                  simp only [Bool.false_eq_true, if_false] at h ⊢
                  omega
      | infinite t => cases hb
      | nan => cases hb
  | infinite s => cases ha
  | nan => cases ha

theorem written_le_written (places : Nat) {a b : Binary64}
    (ha : a.isFinite = true) (hb : b.isFinite = true) (h : a.value ≤ b.value) :
    a.written places ≤ b.written places := by
  rw [written_eq_units, written_eq_units]
  have hunits : (a.units places : ℚ) ≤ b.units places := by
    exact_mod_cast units_le_units places ha hb h
  gcongr

/-- Numbers more than a unit of the last place apart are written differently. -/
theorem written_lt_written (places : Nat) {a b : Binary64}
    (ha : a.isFinite = true) (hb : b.isFinite = true)
    (h : 1 / 10 ^ places < b.value - a.value) :
    a.written places < b.written places := by
  have hfirst := abs_le.1 (abs_written_sub_value_le places ha)
  have hsecond := abs_le.1 (abs_written_sub_value_le places hb)
  have hhalves : (1 : ℚ) / (2 * 10 ^ places) + 1 / (2 * 10 ^ places) =
      1 / 10 ^ places := by
    field_simp
    norm_num
  linarith [hfirst.2, hsecond.1]

end Cutlist.Binary64
