import Cutlist.Proofs.FixedPlaces
import Cutlist.Proofs.NearestInBasin

/-!
# Seventeen digits are enough

A number is written with as few digits as read back, and the search for them
stops at seventeen. On that grid two neighbours are at most one part in `10 ^ 16`
of the number apart, which is less than the spacing of the numbers around it,
and just above a power of two less than half of it; so one of the two neighbours
of the exact value lies in the basin and the search finds something.
-/

namespace Cutlist.Binary64

open Decimal

/-- `c` units of `10 ^ e` are read as `q` quanta. -/
def Reads (q c : Nat) (e : Int) : Prop :=
  (basin q).contains (4 * c * (unit * Nat.pow 10 e.toNat))
    (Nat.pow 10 (-e).toNat) = true

section Grid

variable {q c : Nat} {e : Int}

/-! ## The grid of the seventeenth digit -/

theorem pow_pred_length_le {n : Nat} (hn : n ≠ 0) :
    10 ^ ((digits n).length - 1) ≤ n := by
  by_contra hlt
  by_cases hone : (digits n).length - 1 = 0
  · rw [hone] at hlt
    omega
  · have := (Nat.length_toDigits_le_iff (b := 10) (by decide)
      (Nat.pos_of_ne_zero hone)).2 (Nat.lt_of_not_le hlt)
    change (digits n).length ≤ _ at this
    omega

/-- The digits of a number that is brought above one give its leading one. -/
theorem pow_mul_unit_le {places : Nat} (h : unit ≤ q * 10 ^ places) :
    10 ^ ((digits (q * 10 ^ places / unit)).length - 1) * unit ≤
      q * 10 ^ places := by
  have hne : q * 10 ^ places / unit ≠ 0 :=
    Nat.ne_of_gt (Nat.div_pos h unit_pos)
  exact (Nat.le_div_iff_mul_le unit_pos).1 (pow_pred_length_le hne)

theorem grid_le (places : Nat) (h : unit ≤ q * 10 ^ places)
    (he : e = ((digits (q * 10 ^ places / unit)).length : Int) -
      (places + 1) - 16) :
    10 ^ 16 * (unit * 10 ^ e.toNat) ≤ q * 10 ^ (-e).toNat := by
  have hdigits := pow_mul_unit_le h
  have hlength : 0 < (digits (q * 10 ^ places / unit)).length :=
    List.length_pos_iff.2 Nat.toDigits_ne_nil
  generalize (digits (q * 10 ^ places / unit)).length = length at *
  have hexp : length - 1 + (-e).toNat = places + (16 + e.toNat) := by omega
  have hscaled := Nat.mul_le_mul_right (10 ^ (-e).toNat) hdigits
  have hpow : 0 < 10 ^ places := Nat.pow_pos (by decide)
  refine Nat.le_of_mul_le_mul_left ?_ hpow
  calc 10 ^ places * (10 ^ 16 * (unit * 10 ^ e.toNat))
      = 10 ^ (places + (16 + e.toNat)) * unit := by
        rw [Nat.pow_add, Nat.pow_add]
        ring
    _ = 10 ^ (length - 1) * unit * 10 ^ (-e).toNat := by
        rw [← hexp, Nat.pow_add]
        ring
    _ ≤ q * 10 ^ places * 10 ^ (-e).toNat := hscaled
    _ = 10 ^ places * (q * 10 ^ (-e).toNat) := by ring

/-- The factor that brings every number but zero above one is large enough. -/
theorem exists_places : ∃ places, unit ≤ Nat.pow 10 places ∧
    ∀ q, leadingExponent q =
      ((digits (q * Nat.pow 10 places / unit)).length : Int) - (places + 1) :=
  ⟨400, by decide +kernel, fun _ => rfl⟩

theorem leading_grid_le (hq : q ≠ 0) :
    10 ^ 16 * (unit * 10 ^ (leadingExponent q - 16).toNat) ≤
      q * 10 ^ (-(leadingExponent q - 16)).toNat := by
  obtain ⟨places, hunit, hleading⟩ := exists_places
  refine grid_le places
    (Nat.le_trans hunit (Nat.le_mul_of_pos_left _ (Nat.pos_of_ne_zero hq))) ?_
  rw [hleading]
  rfl

/-! ## A neighbour on that grid -/

theorem eq_of_power (hgap : 1 < spacing q) (hpower : q = Nat.pow 2 q.log2) :
    q = 2 ^ 52 * spacing q := by
  have hlog : 52 ≤ q.log2 := by
    by_contra hlt
    rw [spacing, show q.log2 + 1 - 53 = 0 by omega] at hgap
    exact absurd hgap (by decide)
  have hsplit : q.log2 = 52 + (q.log2 + 1 - 53) := by omega
  conv => lhs; rw [hpower, hsplit]
  exact Nat.pow_add 2 52 _

/-- The spacing is less than the grid can miss. -/
theorem grid_lt_spacing
    (h : 10 ^ 16 * (unit * Nat.pow 10 e.toNat) ≤ q * Nat.pow 10 (-e).toNat) :
    2 * (unit * Nat.pow 10 e.toNat) <
      (if 1 < spacing q ∧ q = Nat.pow 2 q.log2 then spacing q
        else 2 * spacing q) * Nat.pow 10 (-e).toNat := by
  have hfiner : 0 < Nat.pow 10 (-e).toNat := Nat.pow_pos (by decide)
  generalize Nat.pow 10 (-e).toNat = finer at *
  generalize unit * Nat.pow 10 e.toNat = den at *
  have hgap := Nat.mul_pos (spacing_pos q) hfiner
  split
  · next hpower =>
      have hval : q = 2 ^ 52 * spacing q := eq_of_power hpower.1 hpower.2
      have : q * finer = 2 ^ 52 * (spacing q * finer) := by
        rw [← Nat.mul_assoc, ← hval]
      omega
  · have hlt := Nat.mul_lt_mul_of_pos_right (lt_spacing_mul q) hfiner
    rw [Nat.mul_assoc] at hlt ⊢
    change _ < 2 ^ 53 * _ at hlt
    omega

theorem contains_of_near {den num finer c : Nat} (hge : spacing q ≤ q)
    (hnum : num = q * finer)
    (hlow : 2 * num ≤ 2 * (c * den) + den)
    (hhigh : 2 * (c * den) ≤ 2 * num + den)
    (hgap : 2 * den < (if 1 < spacing q ∧ q = Nat.pow 2 q.log2 then spacing q
      else 2 * spacing q) * finer) :
    (basin q).contains (4 * c * den) finer = true := by
  have hwide : (if 1 < spacing q ∧ q = Nat.pow 2 q.log2 then spacing q
      else 2 * spacing q) * finer ≤ 2 * spacing q * finer := by
    refine Nat.mul_le_mul_right _ ?_
    split <;> omega
  have hsmall := Nat.mul_le_mul_right finer hge
  rw [Nat.mul_assoc] at hwide
  rw [contains_iff, basin_low, basin_high, Nat.sub_mul, Nat.add_mul]
  generalize (if 1 < spacing q ∧ q = Nat.pow 2 q.log2 then spacing q
    else 2 * spacing q) * finer = below at *
  rw [Nat.mul_assoc 4 q, ← hnum, Nat.mul_assoc 4 c,
    Nat.mul_assoc 2 (spacing q)]
  omega

theorem onGrid?_eq_some {d : Scaled} (h : onGrid? q e = some d) :
    ∃ c, d = Scaled.ofCoefficient c e ∧ Reads q c e := by
  rw [onGrid?] at h
  obtain ⟨c, hfind, rfl⟩ := Option.map_eq_some_iff.1 h
  have hreads := List.find?_some hfind
  exact ⟨c, rfl, hreads⟩

theorem exists_onGrid? (hge : spacing q ≤ q)
    (h : 10 ^ 16 * (unit * Nat.pow 10 e.toNat) ≤ q * Nat.pow 10 (-e).toNat) :
    ∃ d, onGrid? q e = some d := by
  have hgap := grid_lt_spacing h
  have hden : 0 < unit * Nat.pow 10 e.toNat :=
    Nat.mul_pos unit_pos (Nat.pow_pos (by decide))
  have hsplit := Nat.div_add_mod' (q * Nat.pow 10 (-e).toNat)
    (unit * Nat.pow 10 e.toNat)
  have hmod := Nat.mod_lt (q * Nat.pow 10 (-e).toNat) hden
  have hup := Nat.succ_mul (q * Nat.pow 10 (-e).toNat /
    (unit * Nat.pow 10 e.toNat)) (unit * Nat.pow 10 e.toNat)
  -- The nearer neighbour reads back; which one is found does not matter.
  have hnear : ∃ c,
      (c = q * Nat.pow 10 (-e).toNat / (unit * Nat.pow 10 e.toNat) ∨
      c = q * Nat.pow 10 (-e).toNat / (unit * Nat.pow 10 e.toNat) + 1) ∧
      Reads q c e := by
    rcases Nat.le_total (2 * (q * Nat.pow 10 (-e).toNat %
      (unit * Nat.pow 10 e.toNat))) (unit * Nat.pow 10 e.toNat) with hlow | hhigh
    · exact ⟨_, .inl rfl, contains_of_near hge rfl (by omega) (by omega) hgap⟩
    · exact ⟨_, .inr rfl, contains_of_near hge rfl (by rw [hup]; omega)
        (by rw [hup]; omega) hgap⟩
  obtain ⟨c, hmem, hreads⟩ := hnear
  have hfound : (onGrid? q e).isSome = true := by
    rw [onGrid?, Option.isSome_map, List.find?_isSome]
    refine ⟨c, ?_, hreads⟩
    split
    · simpa using hmem
    · simpa using hmem.symm
  exact Option.isSome_iff_exists.1 hfound

theorem exists_shortest (hq : q ≠ 0) (hdvd : spacing q ∣ q) :
    ∃ c e, shortest q = Scaled.ofCoefficient c e ∧ Reads q c e := by
  have hge := Nat.le_of_dvd (Nat.pos_of_ne_zero hq) hdvd
  obtain ⟨d, hd⟩ := exists_onGrid? hge (leading_grid_le hq)
  have hfound : ((List.range 17).findSome? fun (k : Nat) =>
      onGrid? q (leadingExponent q - k)).isSome = true := by
    rw [List.findSome?_isSome_iff]
    exact ⟨16, by decide, by rw [← Option.isSome_iff_exists.2 ⟨d, hd⟩]; rfl⟩
  obtain ⟨d', hd'⟩ := Option.isSome_iff_exists.1 hfound
  obtain ⟨k, _, hk⟩ := List.exists_of_findSome?_eq_some hd'
  obtain ⟨c, rfl, hreads⟩ := onGrid?_eq_some hk
  refine ⟨c, _, ?_, hreads⟩
  rw [shortest, if_neg hq]
  dsimp only
  rw [hd', Option.getD_some]

end Grid

end Cutlist.Binary64
