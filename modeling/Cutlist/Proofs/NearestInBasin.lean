import Cutlist.Decimal.Shortest
import Cutlist.Proofs.Rounding

/-!
# What lies in a basin is rounded to its number

The digits of a number are chosen by whether they lie in its basin, the reals
that round to it, and they are read back by rounding. That the two agree is
plain where the grid on which the quotient is rounded is that of the number.
Just below a power of two the grid of the quotient is the finer one: there the
basin ends half as far away, and the number is an even multiple of the finer
spacing.
-/

namespace Cutlist.Binary64

/-- The whole number at most one half away; at one half, the even one. -/
theorem roundHalfEven_eq {m num den : Nat} (hden : 0 < den)
    (hlow : 2 * (m * den) ≤ 2 * num + den)
    (hhigh : 2 * num ≤ 2 * (m * den) + den)
    (htie : m % 2 = 0 ∨
      2 * (m * den) < 2 * num + den ∧ 2 * num < 2 * (m * den) + den) :
    roundHalfEven num den = m := by
  have hsplit := Nat.div_add_mod' num den
  have hmod := Nat.mod_lt num hden
  have hle : m ≤ num / den + 1 := by
    have : 2 * m * den < (2 * (num / den) + 3) * den := by
      rw [Nat.mul_assoc, Nat.add_mul, Nat.mul_assoc]
      omega
    have := Nat.lt_of_mul_lt_mul_right this
    omega
  have hge : num / den ≤ m := by
    have : 2 * (num / den) * den < (2 * m + 2) * den := by
      rw [Nat.mul_assoc, Nat.add_mul, Nat.mul_assoc]
      omega
    have := Nat.lt_of_mul_lt_mul_right this
    omega
  have hcases : m = num / den ∨ m = num / den + 1 := by omega
  unfold roundHalfEven
  dsimp only
  rcases hcases with hm | hm
  · rw [hm] at hlow hhigh htie ⊢
    split
    · rfl
    · split
      · omega
      · rw [if_pos (by omega)]
  · have hup : (num / den + 1) * den = num / den * den + den := Nat.succ_mul _ _
    rw [hm, hup] at hlow hhigh htie
    rw [hm]
    split
    · omega
    · split
      · rfl
      · rw [if_neg (by omega)]

/-- A multiple of the spacing at most half of it away. -/
theorem nearest_eq {q num den gap : Nat} (hden : 0 < den)
    (hgap : spacing (num / den) = gap) (hdvd : gap ∣ q)
    (hlow : 2 * (q * den) ≤ 2 * num + den * gap)
    (hhigh : 2 * num ≤ 2 * (q * den) + den * gap)
    (htie : q / gap % 2 = 0 ∨
      2 * (q * den) < 2 * num + den * gap ∧
        2 * num < 2 * (q * den) + den * gap) :
    nearest num den = q := by
  have hpos : 0 < gap := by
    rw [← hgap]
    exact spacing_pos _
  have hmul : q / gap * gap = q := Nat.div_mul_cancel hdvd
  have hcount : q / gap * (den * gap) = q * den := by
    rw [Nat.mul_left_comm, hmul, Nat.mul_comm]
  have hround : roundHalfEven num (den * gap) = q / gap := by
    refine roundHalfEven_eq (Nat.mul_pos hden hpos) ?_ ?_ ?_
    · rw [hcount]; exact hlow
    · rw [hcount]; exact hhigh
    · rw [hcount]; exact htie
  rw [nearest, hgap, hround, hmul]

theorem spacing_eq_of_log2 {m n : Nat} (h : m.log2 = n.log2) :
    spacing m = spacing n := by rw [spacing, spacing, h]

theorem spacing_dvd_two_pow {q k : Nat} (h : q.log2 ≤ k) :
    spacing q ∣ 2 ^ k := Nat.pow_dvd_pow 2 (by omega)

/-- Two multiples of a spacing are a spacing apart. -/
theorem add_le_of_dvd {gap m n : Nat} (hm : gap ∣ m) (hn : gap ∣ n) (h : m < n) :
    m + gap ≤ n := by
  obtain ⟨a, rfl⟩ := hm
  obtain ⟨b, rfl⟩ := hn
  have hlt : a < b := Nat.lt_of_mul_lt_mul_left h
  rw [← Nat.mul_succ]
  exact Nat.mul_le_mul_left _ hlt

/-- What a basin contains, written out. -/
theorem contains_iff {b : Basin} {num den : Nat} :
    b.contains num den = true ↔
      b.low * den ≤ num ∧ num ≤ b.high * den ∧
        (b.ends = true ∨ b.low * den < num ∧ num < b.high * den) := by
  rw [Basin.contains]
  cases b.ends
  · simp only [Bool.false_eq_true, if_false, Bool.and_eq_true, decide_eq_true_eq,
      false_or]
    omega
  · simp

section Nearest

variable {q num den : Nat}

theorem basin_low (q : Nat) : (basin q).low = 4 * q -
    (if 1 < spacing q ∧ q = Nat.pow 2 q.log2 then spacing q
      else 2 * spacing q) := rfl

theorem basin_high (q : Nat) : (basin q).high = 4 * q + 2 * spacing q := rfl

theorem basin_ends (q : Nat) :
    (basin q).ends = true ↔ q / spacing q % 2 = 0 := beq_iff_eq

/-- The quotient is on the grid of the number. -/
theorem nearest_of_same_spacing (hden : 0 < den) (hdvd : spacing q ∣ q)
    (hgap : spacing (num / den) = spacing q)
    (hlow : (4 * q - 2 * spacing q) * den ≤ 4 * num)
    (hhigh : 4 * num ≤ (4 * q + 2 * spacing q) * den)
    (htie : q / spacing q % 2 = 0 ∨
      (4 * q - 2 * spacing q) * den < 4 * num ∧
        4 * num < (4 * q + 2 * spacing q) * den) :
    nearest num den = q := by
  rw [Nat.sub_mul, Nat.mul_assoc, Nat.mul_assoc] at hlow htie
  rw [Nat.add_mul, Nat.mul_assoc, Nat.mul_assoc] at hhigh htie
  rw [Nat.mul_comm (spacing q)] at hlow hhigh htie
  exact nearest_eq hden hgap hdvd (by omega) (by omega) (by omega)

theorem spacing_of_not_below (hden : 0 < den) (hq : q ≠ 0)
    (hdvd : spacing q ∣ q) (hlow : q * den ≤ num)
    (hhigh : num < (q + spacing q) * den) :
    spacing (num / den) = spacing q := by
  have hfloor : q ≤ num / den := (Nat.le_div_iff_mul_le hden).2 hlow
  have hceil : num / den < q + spacing q := (Nat.div_lt_iff_lt_mul hden).2 hhigh
  have hpow := add_le_of_dvd hdvd
    (spacing_dvd_two_pow (Nat.le_succ q.log2)) Nat.lt_log2_self
  refine spacing_eq_of_log2 ((Nat.log2_eq_iff (by omega)).2 ⟨?_, by omega⟩)
  exact Nat.le_trans (Nat.log2_self_le hq) hfloor

theorem spacing_of_below (hden : 0 < den) (hq : q ≠ 0) (hdvd : spacing q ∣ q)
    (hne : q ≠ 2 ^ q.log2) (hbelow : num < q * den)
    (hlow : (4 * q - 2 * spacing q) * den ≤ 4 * num) :
    spacing (num / den) = spacing q := by
  have hpow := add_le_of_dvd (spacing_dvd_two_pow (Nat.le_refl q.log2)) hdvd
    (Nat.lt_of_le_of_ne (Nat.log2_self_le hq) hne.symm)
  have hgap := spacing_pos q
  have hfloor : 2 ^ q.log2 ≤ num / den := by
    refine (Nat.le_div_iff_mul_le hden).2 ?_
    have : 4 * 2 ^ q.log2 * den ≤ (4 * q - 2 * spacing q) * den :=
      Nat.mul_le_mul_right _ (by omega)
    rw [Nat.mul_assoc] at this
    omega
  have hceil : num / den < q := (Nat.div_lt_iff_lt_mul hden).2 hbelow
  have := Nat.lt_log2_self (n := q)
  have := Nat.two_pow_pos q.log2
  exact spacing_eq_of_log2 ((Nat.log2_eq_iff (by omega)).2 ⟨hfloor, by omega⟩)

/-- Where the spacing is a quantum, it is one further down too. -/
theorem spacing_of_below_quantum (hden : 0 < den) (hgap : spacing q = 1)
    (hbelow : num < q * den) : spacing (num / den) = spacing q := by
  have hceil : num / den < q := (Nat.div_lt_iff_lt_mul hden).2 hbelow
  rw [hgap]
  rw [spacing] at hgap ⊢
  have hexp : q.log2 + 1 - 53 = 0 := by
    by_contra hne
    have := Nat.one_lt_two_pow hne
    change 1 < Nat.pow 2 (q.log2 + 1 - 53) at this
    omega
  by_cases hzero : num / den = 0
  · rw [hzero]
    rfl
  · have := log2_mono hzero (Nat.le_of_lt hceil)
    rw [show (num / den).log2 + 1 - 53 = 0 by omega]

/-- Just below a power of two the quotient is on a grid that is twice as fine. -/
theorem nearest_of_below_power (hden : 0 < den) (hgap : 1 < spacing q)
    (hpower : q = 2 ^ q.log2) (hbelow : num < q * den)
    (hlow : (4 * q - spacing q) * den ≤ 4 * num) : nearest num den = q := by
  obtain ⟨k, hk⟩ : ∃ k, q.log2 = 53 + k := by
    refine ⟨q.log2 - 53, ?_⟩
    by_contra hne
    rw [spacing, show q.log2 + 1 - 53 = 0 by omega] at hgap
    exact absurd hgap (by decide)
  have hspacing : spacing q = 2 * 2 ^ k := by
    rw [spacing, hk, show 53 + k + 1 - 53 = k + 1 by omega]
    exact Nat.pow_succ'
  have hvalue : q = 2 ^ 53 * 2 ^ k := by rw [hpower, hk, Nat.pow_add]
  have hceil : num / den < q := (Nat.div_lt_iff_lt_mul hden).2 hbelow
  have hpos := Nat.two_pow_pos k
  have hmul : (4 * q - spacing q) * den = 4 * (q * den) - 2 * (den * 2 ^ k) := by
    rw [Nat.sub_mul, hspacing, Nat.mul_assoc, Nat.mul_assoc, Nat.mul_comm den]
  have hfloor : 2 ^ (52 + k) ≤ num / den := by
    refine (Nat.le_div_iff_mul_le hden).2 ?_
    have hhalf : 2 * (2 ^ (52 + k) * den) = q * den := by
      rw [← Nat.mul_assoc, ← Nat.pow_succ', hpower, hk]
      congr 2
      omega
    have hsmall : den * 2 ^ k ≤ q * den := by
      rw [Nat.mul_comm q]
      exact Nat.mul_le_mul_left _ (by omega)
    omega
  have hlog : (num / den).log2 = 52 + k := by
    have := Nat.two_pow_pos (52 + k)
    refine (Nat.log2_eq_iff (by omega)).2 ⟨hfloor, ?_⟩
    rw [hpower, hk] at hceil
    convert hceil using 2
    omega
  have hfine : spacing (num / den) = 2 ^ k := by
    rw [spacing, hlog, show 52 + k + 1 - 53 = k by omega]
    rfl
  refine nearest_eq hden hfine ⟨2 ^ 53, by rw [hvalue, Nat.mul_comm]⟩ (by omega)
    (by omega) (.inl ?_)
  rw [hvalue, Nat.mul_div_cancel _ hpos]
  decide

/-- What lies in the basin of a number is rounded to it. -/
theorem nearest_of_contains (hden : 0 < den) (hq : q ≠ 0)
    (hdvd : spacing q ∣ q) (h : (basin q).contains (4 * num) den = true) :
    nearest num den = q := by
  obtain ⟨hlow, hhigh, htie⟩ := contains_iff.1 h
  have hgap := spacing_pos q
  have hge : spacing q ≤ q := Nat.le_of_dvd (Nat.pos_of_ne_zero hq) hdvd
  rw [basin_ends, basin_high, basin_low] at htie
  rw [basin_high] at hhigh
  rw [basin_low] at hlow
  have hunder : (4 * q - 2 * spacing q) * den < 4 * (q * den) := by
    rw [← Nat.mul_assoc]
    exact Nat.mul_lt_mul_of_pos_right (by omega) hden
  have hinside : num < (q + spacing q) * den := by
    rw [Nat.add_mul, Nat.mul_assoc, Nat.mul_assoc] at hhigh
    have := Nat.mul_pos hgap hden
    rw [Nat.add_mul]
    omega
  split at hlow
  · next hpower =>
      rw [if_pos hpower] at htie
      rcases Nat.lt_or_ge num (q * den) with hbelow | habove
      · exact nearest_of_below_power hden hpower.1 hpower.2 hbelow hlow
      · exact nearest_of_same_spacing hden hdvd
          (spacing_of_not_below hden hq hdvd habove hinside) (by omega) hhigh
          (htie.imp_right fun h => ⟨by omega, h.2⟩)
  · next hother =>
      rw [if_neg hother] at htie
      refine nearest_of_same_spacing hden hdvd ?_ hlow hhigh htie
      rcases Nat.lt_or_ge num (q * den) with hbelow | habove
      · rcases Nat.lt_or_ge 1 (spacing q) with hbig | hone
        · exact spacing_of_below hden hq hdvd (fun heq => hother ⟨hbig, heq⟩)
            hbelow hlow
        · exact spacing_of_below_quantum hden (by omega) hbelow
      · exact spacing_of_not_below hden hq hdvd habove hinside

end Nearest

end Cutlist.Binary64
