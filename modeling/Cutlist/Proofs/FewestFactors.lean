import Cutlist.Proofs.NumberText
import Cutlist.Proofs.PrintedOrder
import Cutlist.Proofs.TempoFactors
import Mathlib.Data.Real.Basic

/-!
# A speed takes the fewest factors it can

One tempo filter makes a factor from one half to 2, so a list of factors reaches
no further than the power of 2 that it has members. Twos are taken out of a
speed only as long as it is above 2, and what is left is above 1: one factor
less would not reach the speed. With halves it is the same the other way round.

The text of the filters is read back by splitting it at its commas. Only the
last number in it was rounded, and rounding keeps it between one half and 2,
which are both written exactly.

Which speeds take no factor at all is decided by a rounded distance from 1 and
a rounded tolerance. Both roundings are harmless: of the distances that a number
can have from 1, none lies between a hundredth and the tolerance.
-/

namespace Cutlist

open Binary64

namespace Timeline

theorem abs_sub_one_lt_iff (x : Binary64) :
    |x.value - 1| < 1 / 100 ↔ 100 * (x.ticks - unit).natAbs < unit := by
  have hunit : (0 : ℚ) < unit := by exact_mod_cast unit_pos
  have hdistance : |x.value - 1| = ((x.ticks - unit).natAbs : ℚ) / unit := by
    rw [Nat.cast_natAbs, Int.cast_abs, Int.cast_sub, Int.cast_natCast, value,
      ← div_self hunit.ne', ← sub_div, abs_div, abs_of_pos hunit]
  rw [hdistance, div_lt_div_iff₀ hunit (by norm_num), one_mul, mul_comm]
  exact_mod_cast Iff.rfl

section

variable {x : Binary64} (hx : x.isFinite = true)

include hx

/-- Rounding does not bring a distance from 1 below the tolerance. -/
theorem distance_lt_of_rounded
    (h : ((x - 1).ticks.natAbs : Int) < speedTolerance.ticks) :
    ((x.ticks - unit).natAbs : Int) < speedTolerance.ticks := by
  have hone : (1 : Binary64).isFinite = true := by decide +kernel
  have hone' := ticks_one
  have hneg := ticks_neg speedTolerance
  have hnegFinite := (isFinite_neg speedTolerance).trans speedTolerance_finite
  by_contra hfar
  rcases Int.le_total x.ticks unit with hle | hge
  · have := ticks_sub_le hx hone hnegFinite (by omega)
    omega
  · have := le_ticks_sub hx hone speedTolerance_finite (by omega)
    omega

/-- Next to 1 a distance is a multiple of the grid that one half stands on, and
between a hundredth and the tolerance there is no such multiple. -/
theorem distance_lt_hundredth
    (h : ((x.ticks - unit).natAbs : Int) < speedTolerance.ticks) :
    100 * (x.ticks - unit).natAbs < unit := by
  have hbelow : speedTolerance.ticks < halfUnit := by decide +kernel
  have hgrid : unit = 2 ^ 53 * spacing halfUnit := by decide +kernel
  have hbetween : speedTolerance.ticks < 90071992547410 * spacing halfUnit := by
    decide +kernel
  have hlarge : halfUnit ≤ x.ticks.natAbs := by
    have := unit_eq
    omega
  have hx' : (spacing halfUnit : Int) ∣ x.ticks := Int.natCast_dvd.2
    (spacing_dvd_ticks hx (Nat.ne_of_gt halfUnit_pos) hlarge)
  have hunit' : (spacing halfUnit : Int) ∣ unit :=
    Int.natCast_dvd_natCast.2 (hgrid ▸ Nat.dvd_mul_left ..)
  obtain ⟨k, hk⟩ := Int.natCast_dvd.1 (Int.dvd_sub hx' hunit')
  by_contra hfar
  have hk' : 90071992547410 ≤ k := by
    have : 2 ^ 53 * spacing halfUnit ≤ 100 * k * spacing halfUnit := by
      rw [← hgrid, Nat.mul_assoc, Nat.mul_comm k, ← hk]
      omega
    have := Nat.le_of_mul_le_mul_right this (spacing_pos _)
    omega
  have := Nat.mul_le_mul_left (spacing halfUnit) hk'
  rw [← hk, Nat.mul_comm] at this
  omega

/-- The comparison of a speed with its tolerance is that of the exact numbers. -/
theorem distance_lt_iff :
    (x - 1).abs < speedTolerance ↔ |x.value - 1| < 1 / 100 := by
  have hone : (1 : Binary64).isFinite = true := by decide +kernel
  have hnan : (x - 1).abs.isNaN = false := by
    rw [isNaN_abs]
    exact isNaN_sub hx hone
  rw [abs_sub_one_lt_iff,
    lt_iff_ticks hnan (isNaN_of_isFinite speedTolerance_finite),
    ticks_abs]
  constructor
  · intro hlt
    exact distance_lt_hundredth hx (distance_lt_of_rounded hx hlt)
  · intro hlt
    have hone' := ticks_one
    have habove : (unit : Int) ≤ 100 * speedTolerance.ticks := by decide +kernel
    have hneg := ticks_neg speedTolerance
    have hnegFinite := (isFinite_neg speedTolerance).trans speedTolerance_finite
    have hle := ticks_sub_le hx hone speedTolerance_finite (by omega)
    have hge := le_ticks_sub hx hone hnegFinite (by omega)
    have hne := distance_ne_tolerance hx
    rw [ticks_abs] at hne
    omega

end

end Timeline

/-! ## A list that is read back -/

namespace Decimal

/-- The numbers between the commas of a text, each behind the same words. -/
def spelledEach? (words text : String) : Option (List ℚ) :=
  (text.toList.splitOn ',').mapM fun part =>
    spelledAfter? words (String.ofList part)

/-- Texts without a comma are found again between the commas. -/
theorem spelledEach?_intercalate {words : String} {texts : List String}
    (hne : texts ≠ []) (hcomma : ∀ t ∈ texts, ',' ∉ t.toList) :
    spelledEach? words (",".intercalate texts) =
      texts.mapM (spelledAfter? words) := by
  have hparts : ∀ part ∈ texts.map String.toList, ',' ∉ part := by
    intro part hpart
    obtain ⟨t, ht, rfl⟩ := List.mem_map.1 hpart
    exact hcomma t ht
  rw [spelledEach?, String.toList_intercalate]
  change (List.splitOn ',' ([','].intercalate (texts.map String.toList))).mapM _ = _
  rw [List.splitOn_intercalate ',' hparts (by simpa using hne), List.mapM_map]
  congr 1
  funext t
  rw [Function.comp_apply, String.ofList_toList]

end Decimal

namespace Render.Tempo

open FilterGraph

/-- The text that the filters of a speed make in a chain. -/
def text (speed : Binary64) : String :=
  ",".intercalate ((filters speed).map Filter.toText)

theorem toText_noComma {places : Nat} {factor : Binary64}
    (hfactor : factor.isFinite = true) :
    ',' ∉ (Filter.tempo places factor).toText.toList := by
  rw [toText_tempo, String.toList_append, List.mem_append]
  rintro (hwords | hnumber)
  · revert hwords
    decide
  · exact absurd (numeric_toFixed places hfactor ',' hnumber) (by decide)

/-- A tempo filter with a factor that can be read back. -/
def Readable (f : Filter) : Prop :=
  ∃ places factor, 0 < places ∧ factor.isFinite = true ∧ f = .tempo places factor

theorem mapM_told {filters : List Filter} (h : ∀ f ∈ filters, Readable f) :
    filters.mapM (fun f => Decimal.spelledAfter? "atempo=" f.toText) =
      some (told "atempo=" filters) := by
  induction filters with
  | nil => rfl
  | cons f filters ih =>
      obtain ⟨⟨places, factor, hplaces, hfactor, rfl⟩, hrest⟩ :=
        List.forall_mem_cons.1 h
      have htold : Decimal.spelledAfter? "atempo="
          (Filter.tempo places factor).toText = some (factor.written places) := by
        rw [toText_tempo, Decimal.spelledAfter?_append,
          spelled?_toFixed hplaces hfactor]
      have hcons : told "atempo=" (.tempo places factor :: filters) =
          factor.written places :: told "atempo=" filters := by
        rw [told, List.filterMap_cons, htold]
        rfl
      rw [List.mapM_cons, ih hrest, htold, hcons]
      rfl

/-- The text of tempo filters is read as what each of them is told. -/
theorem spelledEach?_tempo {filters : List Filter} (hne : filters ≠ [])
    (h : ∀ f ∈ filters, Readable f) :
    Decimal.spelledEach? "atempo=" (",".intercalate (filters.map Filter.toText)) =
      some (told "atempo=" filters) := by
  rw [Decimal.spelledEach?_intercalate (by simpa using hne), List.mapM_map]
  · exact mapM_told h
  · intro t ht
    obtain ⟨f, hf, rfl⟩ := List.mem_map.1 ht
    obtain ⟨places, factor, _, hfactor, rfl⟩ := h f hf
    exact toText_noComma hfactor

/-! ## Factors that a filter can make -/

/-- Every number in the list is one that a single filter can make, and together
they make the speed. -/
structure Makes (factors : List ℝ) (speed : ℝ) : Prop where
  low : ∀ x ∈ factors, 1 / 2 ≤ x
  high : ∀ x ∈ factors, x ≤ 2
  product : factors.prod = speed

/-- So many factors reach no further than that power of 2, up or down. -/
theorem Makes.between {factors : List ℝ} {speed : ℝ} (h : Makes factors speed) :
    (1 / 2) ^ factors.length ≤ speed ∧ speed ≤ 2 ^ factors.length := by
  induction factors generalizing speed with
  | nil =>
      rw [← h.product]
      simp
  | cons x factors ih =>
      obtain ⟨hlow, hlows⟩ := List.forall_mem_cons.1 h.low
      obtain ⟨hhigh, hhighs⟩ := List.forall_mem_cons.1 h.high
      obtain ⟨habove, hbelow⟩ := ih ⟨hlows, hhighs, rfl⟩
      have hpos : (0 : ℝ) < (1 / 2) ^ factors.length := by positivity
      rw [← h.product, List.prod_cons, List.length_cons, pow_succ', pow_succ']
      constructor
      · gcongr
      · gcongr
        exact hpos.le.trans habove

/-- The factors of a speed are what they should be, with none too many. -/
structure Fewest (speed : Binary64) (factors : List Binary64) : Prop where
  nonempty : factors ≠ []
  finite : ∀ x ∈ factors, x.isFinite = true
  makes : Makes (factors.map fun x => (x.value : ℝ)) speed.value
  twos : 2 < speed.value → ∀ x ∈ factors.dropLast, x = 2
  halves : speed.value < 1 / 2 → ∀ x ∈ factors.dropLast, x = 0.5
  fewest : ∀ others, Makes others speed.value → factors.length ≤ others.length

/-- What a text of so many factors tells is in the reach of the filters and
close to the speed. -/
structure Told (speed : Binary64) (count : Nat) (numbers : List ℚ) : Prop where
  length : numbers.length = count
  low : ∀ x ∈ numbers, 1 / 2 ≤ x
  high : ∀ x ∈ numbers, x ≤ 2
  near : |numbers.prod - speed.value| ≤ speed.value / 10 ^ 5

section

variable {speed factor last : Binary64} {n : Nat}

theorem TakenApart.readable (h : TakenApart speed factor n last) :
    ∀ f ∈ filtersOf (List.replicate n factor ++ [last]), Readable f := by
  rw [filtersOf_append]
  refine List.forall_mem_append.2 ⟨?_, List.forall_mem_singleton.2
    ⟨5, last, by decide, h.finite, rfl⟩⟩
  intro f hf
  obtain ⟨x, hx, rfl⟩ := List.mem_map.1 hf
  obtain rfl := (List.mem_replicate.1 hx).2
  exact ⟨1, x, by decide, h.exact.1, rfl⟩

/-- Twos and halves are themselves in the reach of a filter. -/
theorem TakenApart.between (h : TakenApart speed factor n last) :
    1 / 2 ≤ factor.value ∧ factor.value ≤ 2 := by
  rcases h.twoOrHalf with rfl | rfl
  · rw [value_two]
    norm_num
  · rw [value_half]
    norm_num

theorem TakenApart.makes (h : TakenApart speed factor n last) :
    Makes ((List.replicate n factor ++ [last]).map fun x => (x.value : ℝ))
      speed.value := by
  have hmem : ∀ y ∈ (List.replicate n factor ++ [last]).map
      fun x => (x.value : ℝ), y = factor.value ∨ y = last.value := by
    intro y hy
    simp only [List.map_append, List.map_replicate, List.mem_append,
      List.mem_replicate, List.map_cons, List.map_nil, List.mem_singleton] at hy
    exact hy.imp_left fun hfactor => hfactor.2
  have hfactor := h.between
  have hcast : ((1 / 2 : ℚ) : ℝ) = 1 / 2 := by norm_num
  refine ⟨fun y hy => ?_, fun y hy => ?_, ?_⟩
  · rw [← hcast]
    rcases hmem y hy with rfl | rfl
    · exact_mod_cast hfactor.1
    · exact_mod_cast h.low
  · rcases hmem y hy with rfl | rfl
    · exact_mod_cast hfactor.2
    · exact_mod_cast h.high
  · rw [List.map_append, List.map_replicate, List.prod_append,
      List.prod_replicate, List.map_singleton, List.prod_singleton, h.product]
    push_cast
    rfl

/-- A speed that is above 2 is not taken into halves. -/
theorem TakenApart.eq_two (h : TakenApart speed factor n last)
    (hspeed : 2 < speed.value) : factor = 2 := by
  rcases h.twoOrHalf with htwo | rfl
  · exact htwo
  · have hpow : (1 / 2 : ℚ) ^ n ≤ 1 := pow_le_one₀ (by norm_num) (by norm_num)
    have := h.product
    have := h.low
    have := h.high
    rw [value_half] at *
    nlinarith

/-- A speed that is below one half is not taken into twos. -/
theorem TakenApart.eq_half (h : TakenApart speed factor n last)
    (hspeed : speed.value < 1 / 2) : factor = 0.5 := by
  rcases h.twoOrHalf with rfl | hhalf
  · have hpow : (1 : ℚ) ≤ 2 ^ n := one_le_pow₀ (by norm_num)
    have := h.product
    have := h.low
    rw [value_two] at *
    nlinarith
  · exact hhalf

/-- No list in the reach of the filters is shorter: with as many factors as were
taken out, none of them the rest, the speed would not be reached. -/
theorem TakenApart.lt_length (h : TakenApart speed factor n last)
    (hone : speed.value ≠ 1) {others : List ℝ}
    (hothers : Makes others speed.value) : n < others.length := by
  obtain ⟨hlow, hhigh⟩ := hothers.between
  have hproduct : (speed.value : ℝ) = factor.value ^ n * last.value := by
    exact_mod_cast h.product
  rcases h.rest with rfl | ⟨rfl, hlast⟩ | ⟨rfl, hlast⟩
  · -- Nothing but 1 is made by no factor at all.
    rw [List.length_pos_iff]
    rintro rfl
    have hnone := hothers.product
    rw [List.prod_nil] at hnone
    exact hone (by exact_mod_cast hnone.symm)
  · have hlast' : (1 : ℝ) < last.value := by exact_mod_cast hlast
    have hpos : (0 : ℝ) < 2 ^ n := by positivity
    rw [value_two, Rat.cast_ofNat] at hproduct
    have hlt : (2 : ℝ) ^ n < 2 ^ others.length := by nlinarith
    exact (pow_lt_pow_iff_right₀ (by norm_num)).1 hlt
  · have hlast' : (last.value : ℝ) < 1 := by exact_mod_cast hlast
    have hpos : (0 : ℝ) < (1 / 2) ^ n := by positivity
    have hhalf : (((0.5 : Binary64).value : ℚ) : ℝ) = 1 / 2 := by
      rw [value_half]
      norm_num
    rw [hhalf] at hproduct
    have hlt : (1 / 2 : ℝ) ^ others.length < (1 / 2) ^ n := by nlinarith
    exact (pow_lt_pow_iff_right_of_lt_one₀ (by norm_num) (by norm_num)).1 hlt

theorem TakenApart.fewest (h : TakenApart speed factor n last)
    (hone : speed.value ≠ 1) :
    Fewest speed (List.replicate n factor ++ [last]) where
  nonempty := by simp
  finite := by
    refine List.forall_mem_append.2 ⟨fun x hx => ?_,
      List.forall_mem_singleton.2 h.finite⟩
    rw [(List.mem_replicate.1 hx).2]
    exact h.exact.1
  makes := h.makes
  twos hspeed x hx := by
    rw [List.dropLast_concat] at hx
    rw [(List.mem_replicate.1 hx).2, h.eq_two hspeed]
  halves hspeed x hx := by
    rw [List.dropLast_concat] at hx
    rw [(List.mem_replicate.1 hx).2, h.eq_half hspeed]
  fewest others hothers := by
    rw [List.length_append, List.length_replicate]
    exact h.lt_length hone hothers

/-- The last factor is in the reach of a filter as it is written too. -/
theorem TakenApart.written (h : TakenApart speed factor n last) :
    1 / 2 ≤ last.written 5 ∧ last.written 5 ≤ 2 := by
  have htwo : (2 : Binary64).isFinite = true ∧ (2 : Binary64).written 5 = 2 := by
    rw [two_eq, Binary64.written,
      show decimalUnits 5 (2 * unit) = 200000 by decide +kernel]
    norm_num [Decimal.sign, isFinite]
  have hhalf : (0.5 : Binary64).isFinite = true ∧
      (0.5 : Binary64).written 5 = 1 / 2 := by
    rw [half_eq, Binary64.written,
      show decimalUnits 5 halfUnit = 50000 by decide +kernel]
    norm_num [Decimal.sign, isFinite]
  constructor
  · rw [← hhalf.2]
    exact written_le_written 5 hhalf.1 h.finite (by rw [value_half]; exact h.low)
  · rw [← htwo.2]
    exact written_le_written 5 h.finite htwo.1 (by rw [value_two]; exact h.high)

/-- Twos and halves are told as they are, and the rest is told closely enough. -/
theorem TakenApart.told_within (h : TakenApart speed factor n last)
    (hnear : |(List.replicate n factor.value ++ [last.written 5]).prod -
      speed.value| ≤ speed.value / 10 ^ 5) :
    Told speed (n + 1) (List.replicate n factor.value ++ [last.written 5]) where
  length := by rw [List.length_append, List.length_replicate, List.length_singleton]
  low := by
    refine List.forall_mem_append.2 ⟨fun x hx => ?_,
      List.forall_mem_singleton.2 h.written.1⟩
    rw [(List.mem_replicate.1 hx).2]
    exact h.between.1
  high := by
    refine List.forall_mem_append.2 ⟨fun x hx => ?_,
      List.forall_mem_singleton.2 h.written.2⟩
    rw [(List.mem_replicate.1 hx).2]
    exact h.between.2
  near := hnear

end

/-! ## Which speeds take factors -/

/-- Whether a speed takes factors is a question about the exact numbers. -/
theorem keeps_eq_false_iff (speed : Binary64) : keeps speed = false ↔
    speed.isFinite = true ∧ 0 < speed.value ∧ 1 / 100 ≤ |speed.value - 1| := by
  constructor
  · intro h
    obtain ⟨hfinite, hpos, hfar⟩ := of_not_keeps h
    rw [lt_iff_value isNaN_zero (isNaN_of_isFinite hfinite), value_zero] at hpos
    rw [Timeline.distance_lt_iff hfinite] at hfar
    exact ⟨hfinite, hpos, le_of_not_gt hfar⟩
  · rintro ⟨hfinite, hpos, hfar⟩
    have hzero : ¬ speed ≤ 0 := by
      rw [le_iff_value (isNaN_of_isFinite hfinite) isNaN_zero, value_zero]
      exact not_le_of_gt hpos
    have hdistance : ¬ (speed - 1).abs < Timeline.speedTolerance := by
      rw [Timeline.distance_lt_iff hfinite]
      exact not_lt_of_ge hfar
    simp [keeps, hfinite, hzero, hdistance]

/-- A finite positive speed that is a hundredth or more away from 1 is made by
the fewest factors there can be, and so it is told; any other takes no filter. -/
theorem filters_fewest (speed : Binary64) :
    if speed.isFinite = true ∧ 0 < speed.value ∧ 1 / 100 ≤ |speed.value - 1| then
      Fewest speed (factors speed) ∧
        ∃ numbers, Decimal.spelledEach? "atempo=" (text speed) = some numbers ∧
          Told speed (factors speed).length numbers
    else factors speed = [] ∧ filters speed = [] := by
  split
  next h =>
    have hone : speed.value ≠ 1 := by
      intro hone
      rw [hone] at h
      norm_num at h
    have hkeeps := (keeps_eq_false_iff speed).2 h
    obtain ⟨factor, n, last, hfactors, htaken⟩ := factors_takenApart hkeeps
    have hne : filters speed ≠ [] := by
      rw [filters, hfactors, filtersOf_append]
      simp
    have hreadable : ∀ f ∈ filters speed, Readable f := by
      rw [filters, hfactors]
      exact htaken.readable
    refine ⟨?_, _, spelledEach?_tempo hne hreadable, ?_⟩
    · rw [hfactors]
      exact htaken.fewest hone
    · have hnear := prod_told_near hkeeps
      rw [filters, hfactors, htaken.told] at hnear ⊢
      rw [List.length_append, List.length_replicate]
      exact htaken.told_within hnear
  next h =>
    have hkeeps := mt (keeps_eq_false_iff speed).1 h
    have hnone := factors_of_keeps (Bool.not_eq_false _ ▸ hkeeps)
    rw [filters, hnone]
    exact ⟨rfl, rfl⟩

end Render.Tempo

end Cutlist
