import Cutlist.Proofs.FixedPlaces
import Cutlist.Proofs.Tolerance
import Cutlist.Render.Tempo
import Mathlib.Algebra.BigOperators.Group.List.Basic

/-!
# The factors of a speed

A speed that one tempo filter cannot reach is taken apart: into twos while it
is above 2, or into halves while it is below one half, and a rest. Both steps
are exact, whatever the speed is, so the product of the factors is the speed
itself, from the least positive number to the largest. The rest lies between
one half and 2.

Only the rest is rounded when the factors are written. Twos and halves need one
decimal and are written exactly, and five decimals of a number that is not
below one half keep the product within a hundred-thousandth of the speed.
-/

namespace Cutlist

namespace Binary64

/-! ## Numbers that a speed is compared with -/

theorem lt_iff_value {a b : Binary64} (ha : a.isNaN = false)
    (hb : b.isNaN = false) : a < b ↔ a.value < b.value := by
  rw [lt_iff_ticks ha hb, value_lt_value]

theorem le_iff_value {a b : Binary64} (ha : a.isNaN = false)
    (hb : b.isNaN = false) : a ≤ b ↔ a.value ≤ b.value := by
  rw [le_iff_ticks ha hb, value_le_value]

theorem value_zero : (0 : Binary64).value = 0 := by
  rw [zero_eq, value_finite]
  simp

theorem value_of_ticks {x : Binary64} {n : Int} (h : x.ticks = n * unit) :
    x.value = n := by
  have hunit : (unit : ℚ) ≠ 0 := by exact_mod_cast Nat.ne_of_gt unit_pos
  rw [value, h, Int.cast_mul, Int.cast_natCast, mul_div_assoc, div_self hunit,
    mul_one]

theorem value_one : (1 : Binary64).value = 1 := by
  rw [value_of_ticks (n := 1) (by decide +kernel), Int.cast_one]

theorem value_two : (2 : Binary64).value = 2 := by
  rw [value_of_ticks (n := 2) (by decide +kernel), Int.cast_two]

theorem value_half : (0.5 : Binary64).value = 1 / 2 := by
  have hhalf : (halfUnit : ℚ) ≠ 0 := by exact_mod_cast Nat.ne_of_gt halfUnit_pos
  rw [half_eq, value_finite, unit_eq, Nat.cast_mul]
  field_simp
  simp [Decimal.sign]

theorem isNaN_two : (2 : Binary64).isNaN = false := by rw [two_eq]; rfl

theorem isNaN_half : (0.5 : Binary64).isNaN = false := by rw [half_eq]; rfl

theorem isNaN_zero : (0 : Binary64).isNaN = false := by rw [zero_eq]; rfl

theorem written_two : (2 : Binary64).written 1 = 2 := by
  rw [two_eq, written, show decimalUnits 1 (2 * unit) = 20 by decide +kernel]
  norm_num [Decimal.sign]

theorem written_half : (0.5 : Binary64).written 1 = 1 / 2 := by
  rw [half_eq, written, show decimalUnits 1 halfUnit = 5 by decide +kernel]
  norm_num [Decimal.sign]

/-! ## Halving and doubling -/

theorem value_div_two {x : Binary64} (hx : x.isFinite = true) (hbig : 2 < x) :
    (x / 2).isFinite = true ∧ x.value = 2 * (x / 2).value := by
  rw [lt_iff_value isNaN_two (isNaN_of_isFinite hx), value_two] at hbig
  cases x with
  | finite s n h =>
      have hunit : (0 : ℚ) < unit := by exact_mod_cast unit_pos
      rw [value_finite] at hbig
      -- A number above 2 has no minus.
      have hlt : 2 * unit < n := by
        cases s with
        | true =>
            have : (0 : ℚ) ≤ n / unit := by positivity
            simp only [Decimal.sign, if_true] at hbig
            linarith
        | false =>
            simp only [Decimal.sign, Bool.false_eq_true, if_false, one_mul] at hbig
            rw [lt_div_iff₀ hunit] at hbig
            exact_mod_cast hbig
      obtain ⟨heven, _⟩ := representable_half h (log2_of_unit_le (by omega))
      obtain ⟨h', heq⟩ := div_two (s := s) (h := h) hlt
      have hcast : (n : ℚ) = 2 * (n / 2 : Nat) := by exact_mod_cast heven.symm
      rw [heq]
      refine ⟨rfl, ?_⟩
      rw [value_finite, value_finite, hcast]
      ring
  | infinite s => cases hx
  | nan => cases hx

theorem value_div_half {x : Binary64} (hx : x.isFinite = true) (hpos : 0 < x)
    (hsmall : x < 0.5) :
    (x / 0.5).isFinite = true ∧ x.value = 1 / 2 * (x / 0.5).value := by
  rw [lt_iff_value (isNaN_of_isFinite hx) isNaN_half, value_half] at hsmall
  rw [lt_iff_value isNaN_zero (isNaN_of_isFinite hx), value_zero] at hpos
  cases x with
  | finite s n h =>
      have hunit : (0 : ℚ) < halfUnit := by exact_mod_cast halfUnit_pos
      rw [value_finite, unit_eq, Nat.cast_mul] at hsmall hpos
      have hlt : n < halfUnit := by
        cases s with
        | true =>
            have : (0 : ℚ) ≤ n / ((2 : Nat) * halfUnit) := by positivity
            simp only [Decimal.sign, if_true] at hpos
            linarith
        | false =>
            simp only [Decimal.sign, Bool.false_eq_true, if_false, one_mul] at hsmall
            rw [div_lt_iff₀ (by positivity)] at hsmall
            have : (n : ℚ) < halfUnit := by
              push_cast at hsmall
              linarith
            exact_mod_cast this
      obtain ⟨h', heq⟩ := div_half (s := s) (h := h) hlt
      rw [heq]
      refine ⟨rfl, ?_⟩
      rw [value_finite, value_finite]
      push_cast
      ring
  | infinite s => cases hx
  | nan => cases hx

end Binary64

namespace FilterGraph

/-- The numbers that filters of one kind are told: those behind its words. -/
def told (words : String) (filters : List Filter) : List ℚ :=
  filters.filterMap fun f => Decimal.spelledAfter? words f.toText

theorem told_append (words : String) (fs gs : List Filter) :
    told words (fs ++ gs) = told words fs ++ told words gs :=
  List.filterMap_append

theorem toText_tempo (places : Nat) (factor : Binary64) :
    (Filter.tempo places factor).toText = "atempo=" ++ factor.toFixed places := by
  change s!"atempo={factor.toFixed places}" = _
  rfl

end FilterGraph

namespace Render.Tempo

open Binary64

/-- A number is taken apart into so many equal factors and a rest. -/
structure Splits (x factor : Binary64) (n : Nat)
    (parts : List Binary64 × Binary64) : Prop where
  factors : parts.1 = List.replicate n factor
  finite : parts.2.isFinite = true
  product : x.value = factor.value ^ n * parts.2.value

theorem Splits.whole {x factor : Binary64} (hx : x.isFinite = true) :
    Splits x factor 0 ([], x) :=
  ⟨rfl, hx, by rw [pow_zero, one_mul]⟩

theorem Splits.step {x y factor : Binary64} {n : Nat}
    {parts : List Binary64 × Binary64} (h : Splits y factor n parts)
    (hx : x.value = factor.value * y.value) :
    Splits x factor (n + 1) (factor :: parts.1, parts.2) :=
  ⟨by rw [h.factors, List.replicate_succ], h.finite,
    by rw [hx, h.product, pow_succ]; ring⟩

/-- Twos are taken out of a number until the rest is at most 2. -/
theorem halve_splits {x : Binary64} (hx : x.isFinite = true) :
    ∃ n, Splits x 2 n (halve x) ∧ (halve x).2.value ≤ 2 ∧
      (n = 0 ∧ (halve x).2 = x ∨ 1 < (halve x).2.value) := by
  fun_induction halve x with
  | case1 x h factors rest heq ih =>
      obtain ⟨hfinite, hvalue⟩ := value_div_two h.1 h.2
      obtain ⟨n, hsplits, hle, hrest⟩ := ih hfinite
      rw [heq] at hsplits hle hrest
      refine ⟨n + 1, hsplits.step (by rw [value_two]; exact hvalue), hle, .inr ?_⟩
      rcases hrest with ⟨_, rfl⟩ | hrest
      · have hbig := h.2
        rw [lt_iff_value isNaN_two (isNaN_of_isFinite h.1), value_two] at hbig
        linarith
      · exact hrest
  | case2 x h =>
      refine ⟨0, .whole hx, ?_, .inl ⟨rfl, rfl⟩⟩
      have hsmall : ¬ 2 < x := fun hbig => h ⟨hx, hbig⟩
      rw [lt_iff_value isNaN_two (isNaN_of_isFinite hx), value_two] at hsmall
      exact not_lt.1 hsmall

/-- Halves are taken out of a positive number until the rest is at least one
half. -/
theorem double_splits {x : Binary64} (hx : x.isFinite = true) (hpos : 0 < x) :
    ∃ n, Splits x 0.5 n (double x) ∧ 1 / 2 ≤ (double x).2.value ∧
      (n = 0 ∧ (double x).2 = x ∨ (double x).2.value < 1) := by
  fun_induction double x with
  | case1 x h factors rest heq ih =>
      obtain ⟨hfinite, hvalue⟩ := value_div_half hx h.1 h.2
      have hvalue' : 0 < (x / 0.5).value := by
        rw [lt_iff_value isNaN_zero (isNaN_of_isFinite hx), value_zero] at hpos
        linarith
      have hpos' : 0 < x / 0.5 := by
        rw [lt_iff_value isNaN_zero (isNaN_of_isFinite hfinite), value_zero]
        exact hvalue'
      obtain ⟨n, hsplits, hle, hrest⟩ := ih hfinite hpos'
      rw [heq] at hsplits hle hrest
      refine ⟨n + 1, hsplits.step (by rw [value_half]; exact hvalue),
        hle, .inr ?_⟩
      rcases hrest with ⟨_, rfl⟩ | hrest
      · have hsmall := h.2
        rw [lt_iff_value (isNaN_of_isFinite hx) isNaN_half, value_half] at hsmall
        linarith
      · exact hrest
  | case2 x h =>
      refine ⟨0, .whole hx, ?_, .inl ⟨rfl, rfl⟩⟩
      have hbig : ¬ x < 0.5 := fun hsmall => h ⟨hpos, hsmall⟩
      rw [lt_iff_value (isNaN_of_isFinite hx) isNaN_half, value_half] at hbig
      exact not_lt.1 hbig

/-! ## The factors -/

theorem of_not_keeps {speed : Binary64} (h : keeps speed = false) :
    speed.isFinite = true ∧ 0 < speed ∧
      ¬ (speed - 1).abs < Timeline.speedTolerance := by
  simp only [keeps, Bool.or_eq_false_iff, Bool.not_eq_false',
    decide_eq_false_iff_not] at h
  obtain ⟨⟨hfinite, hpos⟩, hfar⟩ := h
  exact ⟨hfinite, (not_le (isNaN_of_isFinite hfinite) isNaN_zero).1 hpos, hfar⟩

/-- A speed is taken apart into so many twos, or so many halves, and a rest that
one filter can make. No factor is taken out too many: the rest of twos is above
1, that of halves is below. -/
structure TakenApart (speed factor : Binary64) (n : Nat) (last : Binary64) :
    Prop where
  twoOrHalf : factor = 2 ∨ factor = 0.5
  finite : last.isFinite = true
  low : 1 / 2 ≤ last.value
  high : last.value ≤ 2
  product : speed.value = factor.value ^ n * last.value
  rest : n = 0 ∨ factor = 2 ∧ 1 < last.value ∨ factor = 0.5 ∧ last.value < 1

theorem factors_takenApart {speed : Binary64} (h : keeps speed = false) :
    ∃ factor n last, factors speed = List.replicate n factor ++ [last] ∧
      TakenApart speed factor n last := by
  obtain ⟨hfinite, hpos, _⟩ := of_not_keeps h
  obtain ⟨twos, htwos, hhigh, hrest⟩ := halve_splits hfinite
  rw [lt_iff_value isNaN_zero (isNaN_of_isFinite hfinite), value_zero] at hpos
  have hrestPos : 0 < (halve speed).2 := by
    rw [lt_iff_value isNaN_zero (isNaN_of_isFinite htwos.finite), value_zero]
    rcases hrest with ⟨_, heq⟩ | hrest
    · rw [heq]
      exact hpos
    · linarith
  obtain ⟨halves, hhalves, hlow, hlast⟩ := double_splits htwos.finite hrestPos
  have hfactors : factors speed = List.replicate twos 2 ++
      List.replicate halves 0.5 ++ [(double (halve speed).2).2] := by
    simp only [factors, h, Bool.false_eq_true, if_false]
    rw [htwos.factors, hhalves.factors]
  have hlastHigh : (double (halve speed).2).2.value ≤ 2 := by
    rcases hlast with ⟨_, heq⟩ | hlast
    · rw [heq]
      exact hhigh
    · linarith
  have hproduct := hhalves.product
  rcases hrest with ⟨rfl, heq⟩ | hrest
  · refine ⟨0.5, halves, _, by rw [hfactors]; rfl, .inr rfl, hhalves.finite, hlow,
      hlastHigh, by rw [← hproduct, heq], ?_⟩
    exact hlast.imp (fun hnone => hnone.1) fun hlast => .inr ⟨rfl, hlast⟩
  · -- The rest after the twos is above 1, so nothing is left to double.
    have hnone : halves = 0 ∧ (double (halve speed).2).2 = (halve speed).2 := by
      rcases hlast with hnone | hlast
      · exact hnone
      · have hpow : (1 / 2 : ℚ) ^ halves ≤ 1 :=
          pow_le_one₀ (by norm_num) (by norm_num)
        rw [value_half] at hproduct
        nlinarith
    obtain ⟨rfl, hwhole⟩ := hnone
    rw [hwhole] at hfactors
    refine ⟨2, twos, _, by rw [hfactors]; simp, .inl rfl, htwos.finite, by linarith,
      hhigh, htwos.product, .inr (.inl ⟨rfl, hrest⟩)⟩

theorem factors_of_keeps {speed : Binary64} (h : keeps speed = true) :
    factors speed = [] := if_pos h

/-! ## The factors as they are written -/

theorem filtersOf_append (front : List Binary64) (last : Binary64) :
    filtersOf (front ++ [last]) =
      front.map (FilterGraph.Filter.tempo 1) ++ [.tempo 5 last] := by
  induction front with
  | nil => rfl
  | cons factor front ih =>
      have hne : front ++ [last] ≠ [] := by simp
      obtain ⟨next, more, heq⟩ := List.exists_cons_of_ne_nil hne
      rw [List.cons_append, heq, filtersOf, ← heq, ih, List.map_cons,
        List.cons_append]
      · intro hnil
        cases hnil

/-- Tempo filters are told their factors. -/
theorem told_tempo {places : Nat} (hplaces : 0 < places)
    {factors : List Binary64} (hfinite : ∀ x ∈ factors, x.isFinite = true) :
    FilterGraph.told "atempo=" (factors.map (FilterGraph.Filter.tempo places)) =
      factors.map (written places) := by
  rw [FilterGraph.told, List.filterMap_map, ← List.filterMap_eq_map]
  refine List.filterMap_congr fun x hx => ?_
  rw [Function.comp_apply, FilterGraph.toText_tempo,
    Decimal.spelledAfter?_append, spelled?_toFixed hplaces (hfinite x hx)]
  rfl

section Told

variable {speed factor last : Binary64} {n : Nat}

/-- Twos and halves need one decimal. -/
theorem TakenApart.exact (h : TakenApart speed factor n last) :
    factor.isFinite = true ∧ factor.written 1 = factor.value ∧
      0 < factor.value := by
  rcases h.twoOrHalf with rfl | rfl
  · refine ⟨by rw [two_eq]; rfl, by rw [written_two, value_two], ?_⟩
    rw [value_two]
    exact two_pos
  · refine ⟨by rw [half_eq]; rfl, by rw [written_half, value_half], ?_⟩
    rw [value_half]
    exact one_half_pos

/-- All factors but the last are told as they are. -/
theorem TakenApart.told (h : TakenApart speed factor n last) :
    FilterGraph.told "atempo=" (filtersOf (List.replicate n factor ++ [last])) =
      List.replicate n factor.value ++ [last.written 5] := by
  obtain ⟨hfinite, hwritten, _⟩ := h.exact
  have hfront : ∀ x ∈ List.replicate n factor, x.isFinite = true :=
    fun x hx => (List.mem_replicate.1 hx).2 ▸ hfinite
  have hlast : FilterGraph.told "atempo="
      ([last].map (FilterGraph.Filter.tempo 5)) = [last].map (written 5) :=
    told_tempo (by decide) (List.forall_mem_singleton.2 h.finite)
  rw [filtersOf_append, FilterGraph.told_append, told_tempo (by decide) hfront,
    ← List.map_singleton, hlast, List.map_replicate, hwritten]
  rfl

/-- What the filters of a speed are told has a product close to the speed. -/
theorem prod_told_near (h : keeps speed = false) :
    |(FilterGraph.told "atempo=" (filters speed)).prod - speed.value| ≤
      speed.value / 10 ^ 5 := by
  obtain ⟨factor, n, last, hfactors, htaken⟩ := factors_takenApart h
  have hnear := abs_written_sub_value_le 5 htaken.finite
  have hlow := htaken.low
  have hscale : 0 < factor.value ^ n := pow_pos htaken.exact.2.2 n
  rw [filters, hfactors, htaken.told, List.prod_append, List.prod_replicate,
    List.prod_singleton, htaken.product, ← mul_sub, abs_mul, abs_of_pos hscale,
    mul_div_assoc]
  refine mul_le_mul_of_nonneg_left ?_ (le_of_lt hscale)
  norm_num at hnear ⊢
  linarith

end Told

end Render.Tempo

end Cutlist
