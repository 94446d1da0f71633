import Cutlist.Proofs.EnoughDigits
import Mathlib.Data.List.DropRight

/-!
# The shortest digits read back

A decimal that lies in the basin of a number is read as that number, in
whatever way it is split into a coefficient and a power of ten: digits may be
moved over the point and zeros added at the end. So all that has to be known of
the digits of a number, to read back any of the ways in which they are laid
out, is that they stand for one of the decimals in its basin.
-/

namespace Cutlist

namespace Binary64

open Decimal

section Reading

variable {q c : Nat} {e : Int}

theorem ofQuotient_of_contains {num den : Nat} (hden : 0 < den) (hq : q ≠ 0)
    (hrep : Representable q) (h : (basin q).contains (4 * num) den = true)
    (s : Bool) : ofQuotient s num den = .finite s q hrep := by
  have hnearest := nearest_of_contains hden hq hrep.spacing_dvd h
  have hlt : nearest num den < limit := by
    rw [hnearest]
    exact hrep.lt_limit
  rw [ofQuotient, dif_pos hlt]
  congr 1

theorem spacing_le (hq : q ≠ 0) (hrep : Representable q) : spacing q ≤ q :=
  Nat.le_of_dvd (Nat.pos_of_ne_zero hq) hrep.spacing_dvd

/-- A decimal in the basin is between half and one and a half times the number. -/
theorem Reads.bounds (h : Reads q c e) (hq : q ≠ 0) (hrep : Representable q) :
    2 * q * Nat.pow 10 (-e).toNat ≤ 4 * c * (unit * Nat.pow 10 e.toNat) ∧
      4 * c * (unit * Nat.pow 10 e.toNat) ≤ 6 * q * Nat.pow 10 (-e).toNat := by
  obtain ⟨hlow, hhigh, _⟩ := contains_iff.1 h
  have hgap := spacing_le hq hrep
  have hbelow : 2 * q ≤ (basin q).low := by
    rw [basin_low]
    split <;> omega
  have habove : (basin q).high ≤ 6 * q := by
    rw [basin_high]
    omega
  exact ⟨Nat.le_trans (Nat.mul_le_mul_right _ hbelow) hlow,
    Nat.le_trans hhigh (Nat.mul_le_mul_right _ habove)⟩

theorem Reads.ne_zero (h : Reads q c e) (hq : q ≠ 0) (hrep : Representable q) :
    c ≠ 0 := by
  rintro rfl
  have hlow := (h.bounds hq hrep).1
  have := Nat.mul_pos (Nat.mul_pos (by decide : 0 < 2) (Nat.pos_of_ne_zero hq))
    (Nat.pow_pos (n := (-e).toNat) (by decide : 0 < 10))
  rw [Nat.mul_zero, Nat.zero_mul] at hlow
  exact absurd hlow (Nat.not_le.2 this)

theorem exponents_out_of_range :
    ∃ places, places = 401 ∧ 6 * limit < 4 * (unit * Nat.pow 10 places) ∧
      4 * unit < 2 * Nat.pow 10 places :=
  ⟨401, rfl, by decide +kernel, by decide +kernel⟩

/-- The power of ten is not far outside the range of the numbers. -/
theorem Reads.exponent_le (h : Reads q c e) (hq : q ≠ 0)
    (hrep : Representable q) : e ≤ 400 := by
  obtain ⟨places, hplaces, hlarge, _⟩ := exponents_out_of_range
  by_contra hgt
  have hone : (-e).toNat = 0 := by omega
  have hhigh := (h.bounds hq hrep).2
  rw [hone, show Nat.pow 10 0 = 1 from rfl, Nat.mul_one] at hhigh
  have hpow : Nat.pow 10 places ≤ Nat.pow 10 e.toNat :=
    Nat.pow_le_pow_right (by decide) (by omega)
  have hlimit := hrep.lt_limit
  have hc := Nat.pos_of_ne_zero (h.ne_zero hq hrep)
  have hless : 4 * (unit * Nat.pow 10 places) ≤
      4 * c * (unit * Nat.pow 10 e.toNat) :=
    Nat.mul_le_mul (by omega) (Nat.mul_le_mul_left _ hpow)
  omega

theorem Reads.le_exponent (h : Reads q c e) (hq : q ≠ 0)
    (hrep : Representable q) {width : Nat} (hc : c < 10 ^ width) :
    ¬ e + width < -400 := by
  obtain ⟨places, hplaces, _, hsmall⟩ := exponents_out_of_range
  intro hlt
  have hone : e.toNat = 0 := by omega
  have hlow := (h.bounds hq hrep).1
  rw [hone, show Nat.pow 10 0 = 1 from rfl, Nat.mul_one] at hlow
  have hpow : Nat.pow 10 (places + width) ≤ Nat.pow 10 (-e).toNat :=
    Nat.pow_le_pow_right (by decide) (by omega)
  have hsplit : Nat.pow 10 (places + width) = Nat.pow 10 places * 10 ^ width :=
    Nat.pow_add 10 places width
  have hpos := Nat.pos_of_ne_zero hq
  have : 2 * Nat.pow 10 places * 10 ^ width <
      2 * Nat.pow 10 places * 10 ^ width :=
    calc 2 * Nat.pow 10 places * 10 ^ width
        = 2 * 1 * Nat.pow 10 (places + width) := by rw [hsplit, Nat.mul_assoc]
      _ ≤ 2 * q * Nat.pow 10 (-e).toNat :=
        Nat.mul_le_mul (Nat.mul_le_mul_left _ hpos) hpow
      _ ≤ 4 * c * unit := hlow
      _ ≤ 4 * 10 ^ width * unit :=
        Nat.mul_le_mul_right _ (Nat.mul_le_mul_left _ (Nat.le_of_lt hc))
      _ = 4 * unit * 10 ^ width := Nat.mul_right_comm _ _ _
      _ < 2 * Nat.pow 10 places * 10 ^ width :=
        Nat.mul_lt_mul_of_pos_right hsmall (Nat.pow_pos (by decide))
  exact Nat.lt_irrefl _ this

/-- A decimal in the basin of a number is read as the number. -/
theorem Reads.ofDecimal (h : Reads q c e) (hq : q ≠ 0) (hrep : Representable q)
    {width : Nat} (hc : c < 10 ^ width) (s : Bool) :
    ofDecimal s c width e = .finite s q hrep := by
  rw [Binary64.ofDecimal, if_neg (h.ne_zero hq hrep),
    if_neg (Int.not_lt.2 (h.exponent_le hq hrep)),
    if_neg (h.le_exponent hq hrep hc)]
  have hcontains : (basin q).contains (4 * (c * unit * Nat.pow 10 e.toNat))
      (Nat.pow 10 (-e).toNat) = true := by
    have := h
    rwa [Reads, Nat.mul_assoc, ← Nat.mul_assoc c] at this
  split
  · next hneg =>
      rw [show e.toNat = 0 by omega, show (-e).toNat = e.natAbs by omega,
        show Nat.pow 10 0 = 1 from rfl, Nat.mul_one] at hcontains
      exact ofQuotient_of_contains (Nat.pow_pos (by decide)) hq hrep hcontains s
  · next hneg =>
      rw [show (-e).toNat = 0 by omega] at hcontains
      exact ofQuotient_of_contains Nat.one_pos hq hrep hcontains s

/-! ## Moving digits over the point -/

theorem contains_congr {b : Basin} {num den num' den' : Nat} (hden : 0 < den)
    (hden' : 0 < den') (h : num * den' = num' * den) :
    b.contains num den = true ↔ b.contains num' den' = true := by
  have hle : ∀ k, k * den ≤ num ↔ k * den' ≤ num' := by
    intro k
    rw [← Nat.mul_le_mul_right_iff hden', h, Nat.mul_right_comm,
      Nat.mul_le_mul_right_iff hden]
  have hge : ∀ k, num ≤ k * den ↔ num' ≤ k * den' := by
    intro k
    rw [← Nat.mul_le_mul_right_iff hden', h, Nat.mul_right_comm,
      Nat.mul_le_mul_right_iff hden]
  rw [contains_iff, contains_iff, ← Nat.not_le, ← Nat.not_le, hge, hle, hge,
    hle, ← Nat.not_le, ← Nat.not_le]

theorem reads_mul_pow (k : Nat) :
    Reads q (c * 10 ^ k) (e - k) ↔ Reads q c e := by
  have hpow : ∀ n, 0 < Nat.pow 10 n := fun n => Nat.pow_pos (by decide)
  refine contains_congr (hpow _) (hpow _) ?_
  have hexp : k + (e - k).toNat + (-e).toNat = e.toNat + (-(e - k)).toNat := by
    omega
  have hsplit : 10 ^ k * Nat.pow 10 (e - k).toNat * Nat.pow 10 (-e).toNat =
      Nat.pow 10 e.toNat * Nat.pow 10 (-(e - k)).toNat := by
    change 10 ^ k * 10 ^ (e - k).toNat * 10 ^ (-e).toNat =
      10 ^ e.toNat * 10 ^ (-(e - k)).toNat
    rw [← Nat.pow_add, ← Nat.pow_add, ← Nat.pow_add, hexp]
  calc 4 * (c * 10 ^ k) * (unit * Nat.pow 10 (e - k).toNat) *
        Nat.pow 10 (-e).toNat
      = 4 * c * unit * (10 ^ k * Nat.pow 10 (e - k).toNat *
          Nat.pow 10 (-e).toNat) := by ring
    _ = 4 * c * (unit * Nat.pow 10 e.toNat) * Nat.pow 10 (-(e - k)).toNat := by
        rw [hsplit]
        ring

end Reading

end Binary64

namespace Decimal

open Binary64

/-- Digits that stand for a decimal in the basin of a number, none of them a
zero in front. -/
structure Scaled.Spells (d : Scaled) (q : Nat) : Prop where
  isDigit : ∀ ch ∈ d.digits, ch.isDigit = true
  leading : ∃ ch r, d.digits = ch :: r ∧ ch ≠ '0'
  reads : Reads q (value d.digits) (d.point - d.digits.length)

section Digits

variable {q c : Nat} {e : Int}

theorem value_zeros (ds : List Char) (k : Nat) :
    value (ds ++ List.replicate k '0') = value ds * 10 ^ k := by
  have hzeros : value (List.replicate k '0') = 0 := by
    induction k with
    | zero => rfl
    | succ k ih =>
        rw [List.replicate_succ', value_append, ih]
        rfl
  rw [value_append, ofDigitChars_shift, List.length_replicate, hzeros,
    Nat.add_zero]

/-- No number but zero begins with a zero. -/
theorem digits_leading (hc : c ≠ 0) :
    ∃ ch r, digits c = ch :: r ∧ ch ≠ '0' := by
  obtain ⟨ch, r, hdigits⟩ := List.exists_cons_of_ne_nil
    (Nat.toDigits_ne_nil (b := 10) (n := c))
  refine ⟨ch, r, hdigits, ?_⟩
  rintro rfl
  have hr : ∀ x ∈ r, x.isDigit = true := fun x hx =>
    isDigit_of_mem_digits (n := c) (by
      rw [digits, hdigits]
      exact List.mem_cons_of_mem _ hx)
  have hvalue : c = value r := by
    have := value_digits c
    rw [digits, hdigits, value_cons, Nat.sub_self, Nat.zero_mul,
      Nat.zero_add] at this
    exact this.symm
  have hlt : c < 10 ^ r.length := hvalue ▸ value_lt hr
  by_cases hnil : r.length = 0
  · rw [hnil] at hlt
    omega
  · have := (Nat.length_toDigits_le_iff (b := 10) (by decide)
      (Nat.pos_of_ne_zero hnil)).2 hlt
    rw [hdigits, List.length_cons] at this
    omega

/-- Zeros at the end are all that is left out. -/
theorem ofCoefficient_digits (c : Nat) (e : Int) :
    ∃ k, (Scaled.ofCoefficient c e).digits ++ List.replicate k '0' =
      digits c := by
  have hsplit : (digits c).rdropWhile (· == '0') ++
      (digits c).rtakeWhile (· == '0') = digits c :=
    List.rdropWhile_append_rtakeWhile
  have hzeros : (digits c).rtakeWhile (· == '0') =
      List.replicate ((digits c).rtakeWhile (· == '0')).length '0' := by
    refine List.eq_replicate_iff.2 ⟨rfl, fun ch hch => ?_⟩
    have hzero := List.mem_rtakeWhile_imp hch
    exact eq_of_beq hzero
  rw [hzeros] at hsplit
  exact ⟨_, hsplit⟩

theorem spells_ofCoefficient (h : Reads q c e) (hq : q ≠ 0)
    (hrep : Representable q) : (Scaled.ofCoefficient c e).Spells q := by
  have hc := h.ne_zero hq hrep
  obtain ⟨k, hk⟩ := ofCoefficient_digits c e
  have hpoint : (Scaled.ofCoefficient c e).point = (digits c).length + e := rfl
  generalize Scaled.ofCoefficient c e = d at *
  obtain ⟨ch, r, hdigits, hne⟩ := digits_leading hc
  have hvalue : c = value d.digits * 10 ^ k := by
    rw [← value_zeros, hk, value_digits]
  have hlength : (digits c).length = d.digits.length + k := by
    rw [← hk, List.length_append, List.length_replicate]
  constructor
  · intro x hx
    exact isDigit_of_mem_digits (n := c) (by
      rw [← hk]
      exact List.mem_append_left _ hx)
  · cases hd : d.digits with
    | nil =>
        rw [hd] at hvalue
        exact absurd hvalue (by simpa [value] using hc)
    | cons x xs =>
        rw [hd, hdigits, List.cons_append] at hk
        cases (List.cons.inj hk).1
        exact ⟨ch, xs, rfl, hne⟩
  · rw [hpoint, hlength]
    rw [hvalue] at h
    refine (reads_mul_pow k).1 ?_
    convert h using 1
    omega

theorem spells_shortest (hq : q ≠ 0) (hrep : Representable q) :
    (shortest q).Spells q := by
  obtain ⟨c, e, heq, hreads⟩ := exists_shortest hq hrep.spacing_dvd
  rw [heq]
  exact spells_ofCoefficient hreads hq hrep

end Digits

end Decimal

end Cutlist
