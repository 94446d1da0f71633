import Cutlist.Proofs.NumberReadBack
import Cutlist.Proofs.TempoFactors
import Cutlist.Proofs.ZeroSigns

/-!
# Plain decimals round back to the number

Seek times and scale factors are written without an exponent, whatever their
magnitude: the digits of a number are laid out around a point that may be
hundreds of places away. Two things could go wrong. The point could end up with
no digit on one of its sides, and a number that is not whole could lose its
point, when its fewest digits are those of a whole number.

The second does not happen because a whole number never rounds to one that is
not: near it, the numbers are either all whole, or it is one of them.
-/

namespace Cutlist

open Decimal

/-! ## Decimals -/

namespace Decimal

/-- A sign, digits, and then nothing or a point and more digits. -/
structure Plain where
  negative : Bool
  whole : List Char
  fraction : List Char
  whole_ne_nil : whole ≠ []
  isDigit : ∀ c ∈ whole ++ fraction, c.isDigit = true

namespace Plain

def chars (d : Plain) : List Char :=
  minus d.negative ++ (d.whole ++ if d.fraction = [] then []
    else '.' :: d.fraction)

/-- The exact number that a decimal spells. -/
def value (d : Plain) : ℚ :=
  sign d.negative * (Decimal.value (d.whole ++ d.fraction) / 10 ^ d.fraction.length)

theorem digits_ne_nil (n : Nat) : digits n ≠ [] := Nat.toDigits_ne_nil

/-- A whole number as a decimal. -/
def ofInt (n : ℤ) : Plain where
  negative := decide (n < 0)
  whole := digits n.natAbs
  fraction := []
  whole_ne_nil := digits_ne_nil _
  isDigit c hc := isDigit_of_mem_digits (n := n.natAbs) (by simpa using hc)

theorem chars_ofInt (n : ℤ) : (ofInt n).chars = (toString n).toList := by
  rw [toList_toString_int]
  exact congrArg _ (List.append_nil _)

theorem value_ofInt (n : ℤ) : (ofInt n).value = n := by
  have hdigits : Decimal.value (digits n.natAbs ++ []) = n.natAbs := by
    rw [List.append_nil, value_digits]
  change sign (decide (n < 0)) *
    (Decimal.value (digits n.natAbs ++ []) / 10 ^ 0) = (n : ℚ)
  rw [hdigits, pow_zero, div_one, Nat.cast_natAbs]
  rcases lt_or_ge n 0 with hneg | hpos
  · rw [decide_eq_true hneg, sign, if_pos rfl, abs_of_neg hneg, Int.cast_neg,
      neg_one_mul, neg_neg]
  · rw [decide_eq_false (Int.not_lt.2 hpos), sign, if_neg Bool.false_ne_true,
      abs_of_nonneg hpos, one_mul]

end Plain

end Decimal

namespace Binary64

/-! ## Rounding an exact number -/

/-- The number nearest to a rational one. -/
def ofRational (r : ℚ) : Binary64 :=
  ofQuotient (decide (r < 0)) (r.num.natAbs * unit) r.den

section Rational

variable {r : ℚ} {s : Bool} {a b : Nat}

/-- However a rational number is written as a fraction, its own numerator and
denominator stand in the same proportion. -/
theorem natAbs_num_mul (hb : b ≠ 0) (h : r = sign s * ((a : ℚ) / b)) :
    r.num.natAbs * b = a * r.den := by
  have hb' : (b : ℚ) ≠ 0 := by exact_mod_cast hb
  have hden : (r.den : ℚ) ≠ 0 := by exact_mod_cast r.den_nz
  have hsize : |r| = (a : ℚ) / b := by
    have hsign : |sign s| = 1 := by cases s <;> simp [sign]
    rw [h, abs_mul, hsign, one_mul, abs_of_nonneg (by positivity)]
  have hown : |r| = (r.num.natAbs : ℚ) / r.den := by
    rw [Nat.cast_natAbs, Int.cast_abs, ← Nat.abs_cast r.den, ← abs_div,
      r.num_div_den]
  rw [hown, div_eq_div_iff hden hb'] at hsize
  exact_mod_cast hsize

theorem decide_neg (ha : a ≠ 0) (hb : b ≠ 0) (h : r = sign s * ((a : ℚ) / b)) :
    decide (r < 0) = s := by
  have hpos : (0 : ℚ) < (a : ℚ) / b := by positivity
  cases s with
  | true =>
      rw [h, sign, if_pos rfl, decide_eq_true_eq]
      linarith
  | false =>
      rw [h, sign, if_neg Bool.false_ne_true, decide_eq_false_iff_not]
      linarith

end Rational

variable {s : Bool} {q : Nat}

/-- A number is the nearest one to its own value. -/
theorem ofRational_value {x : Binary64} (hx : x.isFinite = true) :
    Alike (ofRational x.value) x := by
  cases x with
  | infinite s => cases hx
  | nan => cases hx
  | finite s q hrep =>
      have hvalue := value_finite s q hrep
      have hcross := natAbs_num_mul unit_pos.ne' hvalue
      rw [ofRational, hcross, ofQuotient_mul _ q _ (Rat.den_pos _) hrep]
      by_cases hq : q = 0
      · subst hq
        exact .zeros _ s
      · rw [decide_neg hq unit_pos.ne' hvalue]
        exact .same _

/-- A decimal in the basin of a number is rounded to the number. -/
theorem ofRational_of_reads {c k : Nat} (h : Reads q c (-k)) (hq : q ≠ 0)
    (hrep : Representable q) {r : ℚ} (hr : r = sign s * (c / 10 ^ k)) :
    ofRational r = .finite s q hrep := by
  have hpow : 0 < 10 ^ k := Nat.pow_pos (by decide)
  rw [← Nat.cast_ofNat, ← Nat.cast_pow] at hr
  have hcross := natAbs_num_mul hpow.ne' hr
  have hbasin : (basin q).contains (4 * (r.num.natAbs * unit)) r.den = true := by
    refine (contains_congr (Nat.pow_pos (by decide)) r.den_pos ?_).1 h
    have hcoarser : (-(k : Int)).toNat = 0 := by omega
    have hfiner : (-(-(k : Int))).toNat = k := by omega
    rw [hcoarser, hfiner]
    calc 4 * c * (unit * 10 ^ 0) * r.den
        = 4 * unit * (c * r.den) := by ring
      _ = 4 * unit * (r.num.natAbs * 10 ^ k) := by rw [hcross]
      _ = 4 * (r.num.natAbs * unit) * 10 ^ k := by ring
  rw [ofRational, decide_neg (h.ne_zero hq hrep) hpow.ne' hr]
  exact ofQuotient_of_contains r.den_pos hq hrep hbasin s

/-! ## Whole numbers -/

/-- The grid that a whole number is rounded on is as fine as the whole numbers, or
has no other ones. -/
theorem spacing_dvd_unit_or (n : Nat) : spacing n ∣ unit ∨ unit ∣ spacing n := by
  obtain ⟨k, _, hunit⟩ := unit_eq_pow
  rw [hunit]
  exact (Nat.le_total _ k).imp (Nat.pow_dvd_pow 2) (Nat.pow_dvd_pow 2)

/-- A whole number is never rounded to one that is not. -/
theorem unit_dvd_nearest (n : Nat) : unit ∣ nearest (n * unit) 1 := by
  have hpos := spacing_pos (n * unit / 1)
  rw [nearest]
  rcases spacing_dvd_unit_or (n * unit / 1) with ⟨m, hm⟩ | hcoarse
  · generalize spacing (n * unit / 1) = gap at *
    have hexact : n * unit = n * m * (1 * gap) := by
      rw [hm]
      ring
    rw [hexact, roundHalfEven_mul _ _ (Nat.mul_pos Nat.one_pos hpos),
      ← Nat.one_mul gap, ← hexact]
    exact Nat.dvd_mul_left _ _
  · exact Nat.dvd_mul_left_of_dvd hcoarse _

/-- The digits of a whole number are read as a whole number. -/
theorem unit_dvd_of_reads {c : Nat} (h : Reads q c 0) (hq : q ≠ 0)
    (hrep : Representable q) : unit ∣ q := by
  have hcontains : (basin q).contains (4 * (c * unit)) 1 = true := by
    rw [← Nat.mul_assoc]
    rw [Reads, Int.toNat_zero, show Nat.pow 10 0 = 1 from rfl, Nat.mul_one] at h
    exact h
  rw [← nearest_of_contains Nat.one_pos hq hrep.spacing_dvd hcontains]
  exact unit_dvd_nearest c

/-- A number without a fraction. -/
def IsWhole (x : Binary64) : Prop := ∃ n : ℤ, x.value = n

theorem value_whole (m : Nat) (hrep : Representable (m * unit)) :
    (finite s (m * unit) hrep).value = signed s m := by
  refine value_of_ticks ?_
  cases s <;> simp [ticks, signed]

theorem isWhole_iff (hrep : Representable q) :
    (finite s q hrep).IsWhole ↔ unit ∣ q := by
  constructor
  · rintro ⟨n, hn⟩
    have hcross := natAbs_num_mul unit_pos.ne' (value_finite s q hrep)
    rw [hn, Rat.den_intCast, Nat.mul_one] at hcross
    exact ⟨_, hcross.symm.trans (Nat.mul_comm _ _)⟩
  · intro hdvd
    obtain ⟨m, rfl⟩ := exists_eq_mul_left_of_dvd hdvd
    exact ⟨_, value_whole m hrep⟩

/-! ## The text of a number -/

theorem toPlain_whole (hrep : Representable q) (hq : q % unit = 0) :
    ∃ d : Plain, (finite s q hrep).toPlain.toList = d.chars ∧ d.fraction = [] ∧
      d.value = (finite s q hrep).value := by
  obtain ⟨m, rfl⟩ := exists_eq_mul_left_of_dvd (Nat.dvd_of_mod_eq_zero hq)
  refine ⟨.ofInt (signed s m), ?_, rfl, ?_⟩
  · rw [toPlain, if_pos hq, Nat.mul_div_cancel _ unit_pos, Plain.chars_ofInt]
  · rw [Plain.value_ofInt, value_whole]

theorem toPlain_fraction (hrep : Representable q) (hq : q % unit ≠ 0) :
    ∃ d : Plain, (finite s q hrep).toPlain.toList = d.chars ∧ d.fraction ≠ [] ∧
      ofRational d.value = finite s q hrep := by
  have hne : q ≠ 0 := by
    rintro rfl
    exact hq (Nat.zero_mod _)
  have hspells := spells_shortest hne hrep
  rw [toPlain, if_neg hq, String.toList_ofList]
  rcases hspells.positional_cases with
    ⟨whole, fraction, htext, hpointed⟩ | hpointed
  · have hwhole : whole ≠ [] := by
      rcases hpointed.leading with rfl | ⟨c, r, rfl, _⟩
      · exact List.cons_ne_nil _ _
      · exact List.cons_ne_nil _ _
    refine ⟨⟨s, whole, fraction, hwhole, hpointed.isDigit⟩, ?_, hpointed.nonempty,
      ofRational_of_reads hpointed.reads hne hrep rfl⟩
    rw [htext, Plain.chars, if_neg hpointed.nonempty]
  · -- without a point the digits would be those of a whole number
    refine absurd (Nat.dvd_iff_mod_eq_zero.1 ?_) hq
    have hreads := hpointed.reads
    have hzero : Decimal.value ((shortest q).positional ++ ['0']) =
        Decimal.value (shortest q).positional * 10 ^ 1 := value_zeros _ 1
    rw [hzero] at hreads
    exact unit_dvd_of_reads ((reads_mul_pow 1).1 hreads) hne hrep

/-- A finite number is written as a plain decimal, which has a point exactly when
the number is not whole. The decimal is rounded to the number, up to the sign of
a zero, and that of a whole number is the number itself. -/
theorem toPlain_spells {x : Binary64} (hx : x.isFinite = true) :
    ∃ d : Plain, x.toPlain.toList = d.chars ∧ (d.fraction = [] ↔ x.IsWhole) ∧
      Alike (ofRational d.value) x ∧ (x.IsWhole → d.value = x.value) := by
  cases x with
  | infinite s => cases hx
  | nan => cases hx
  | finite s q hrep =>
      by_cases hq : q % unit = 0
      · obtain ⟨d, htext, hnone, hvalue⟩ := toPlain_whole (s := s) hrep hq
        have hwhole := (isWhole_iff (s := s) hrep).2 (Nat.dvd_of_mod_eq_zero hq)
        refine ⟨d, htext, iff_of_true hnone hwhole, ?_, fun _ => hvalue⟩
        rw [hvalue]
        exact ofRational_value hx
      · obtain ⟨d, htext, hsome, hrounded⟩ := toPlain_fraction (s := s) hrep hq
        have hpart : ¬ (finite s q hrep).IsWhole := fun hwhole =>
          hq (Nat.mod_eq_zero_of_dvd ((isWhole_iff hrep).1 hwhole))
        refine ⟨d, htext, iff_of_false hsome hpart, ?_, fun h => absurd h hpart⟩
        rw [hrounded]
        exact .same _

/-- The least positive number, whose digits begin 324 places after the point. -/
theorem toPlain_spells_least :
    (5e-324 : Binary64).isFinite = true ∧
      ∃ d : Plain, (5e-324 : Binary64).toPlain.toList = d.chars ∧
        (d.fraction = [] ↔ (5e-324 : Binary64).IsWhole) ∧
        Alike (ofRational d.value) 5e-324 ∧
        ((5e-324 : Binary64).IsWhole → d.value = (5e-324 : Binary64).value) := by
  have hfinite : (5e-324 : Binary64).isFinite = true := by decide +kernel
  exact ⟨hfinite, toPlain_spells hfinite⟩

example : (-0.00005 : Binary64).toPlain = "-0.00005" := by decide +kernel

end Binary64

end Cutlist
