import Cutlist.Binary64

/-!
# Exact halving and doubling

A number that has a representation is its own nearest number, so a quotient that
is exact is not rounded. Half of a number above 2 and twice a number below one
half are such quotients.
-/

namespace Cutlist.Binary64

theorem spacing_pos (n : Nat) : 0 < spacing n := Nat.two_pow_pos _

/-! The exponents of the fixed numbers are named, so that no step computes the
numbers. -/

theorem unit_eq_pow : ∃ k, k = 1074 ∧ unit = Nat.pow 2 k := by
  delta unit
  exact ⟨_, rfl, rfl⟩

theorem limit_eq_pow : ∃ k, k = 2098 ∧ limit = Nat.pow 2 k := by
  delta limit
  exact ⟨_, rfl, rfl⟩

theorem unit_pos : 0 < unit := by
  obtain ⟨k, hk, hunit⟩ := unit_eq_pow
  rw [hunit]
  exact Nat.two_pow_pos k

theorem roundHalfEven_mul (k d : Nat) (hd : 0 < d) :
    roundHalfEven (k * d) d = k := by
  simp [roundHalfEven, Nat.mul_div_cancel k hd, hd]

/-- What can be represented is its own nearest number. -/
theorem nearest_mul (n d : Nat) (hd : 0 < d) (h : spacing n ∣ n) :
    nearest (n * d) d = n := by
  obtain ⟨k, hk⟩ := h
  have hdiv : n * d / d = n := Nat.mul_div_cancel n hd
  have hnum : n * d = k * (d * spacing n) := by
    conv => lhs; rw [hk]
    rw [Nat.mul_comm (spacing n) k, Nat.mul_assoc, Nat.mul_comm (spacing n) d]
  have hround : roundHalfEven (n * d) (d * spacing n) = k := by
    rw [hnum, roundHalfEven_mul _ _ (Nat.mul_pos hd (spacing_pos n))]
  rw [nearest, hdiv, hround, Nat.mul_comm, ← hk]

/-- A representable number of quanta, read back from any multiple of it. -/
theorem ofQuotient_mul (negative : Bool) (n d : Nat) (hd : 0 < d)
    (h : Representable n) :
    ofQuotient negative (n * d) d = .finite negative n h := by
  have hn := nearest_mul n d hd h.spacing_dvd
  have hlt : nearest (n * d) d < limit := by rw [hn]; exact h.lt_limit
  rw [ofQuotient, dif_pos hlt]
  congr 1

/-- Quanta in the number one half. -/
@[irreducible] def halfUnit : Nat := Nat.pow 2 1073

theorem halfUnit_eq_pow : ∃ k, k = 1073 ∧ halfUnit = Nat.pow 2 k := by
  delta halfUnit
  exact ⟨_, rfl, rfl⟩

theorem two_mul_pow (k : Nat) : 2 * Nat.pow 2 k = Nat.pow 2 (k + 1) :=
  Nat.mul_comm 2 _

theorem pow_lt_limit {k : Nat} (h : k < 2098) : Nat.pow 2 k < limit := by
  obtain ⟨l, hl, hlimit⟩ := limit_eq_pow
  rw [hlimit]
  exact Nat.pow_lt_pow_right (by decide) (by omega)

theorem representable_pow {k : Nat} (h : k < 2098) :
    Representable (Nat.pow 2 k) := by
  refine ⟨?_, pow_lt_limit h⟩
  have hdvd := spacing_dvd_mul_pow 1 k (by decide)
  rwa [Nat.one_mul] at hdvd

theorem halfUnit_pos : 0 < halfUnit := by
  obtain ⟨k, hk, hhalf⟩ := halfUnit_eq_pow
  rw [hhalf]
  exact Nat.two_pow_pos k

theorem unit_eq : unit = 2 * halfUnit := by
  obtain ⟨k, hk, hunit⟩ := unit_eq_pow
  obtain ⟨l, hl, hhalf⟩ := halfUnit_eq_pow
  rw [hunit, hhalf, two_mul_pow, show k = l + 1 by omega]

theorem two_halfUnit_le_limit : 2 * halfUnit ≤ limit := by
  obtain ⟨k, hk, hunit⟩ := unit_eq_pow
  rw [← unit_eq, hunit]
  exact Nat.le_of_lt (pow_lt_limit (by omega))

theorem representable_two_unit : Representable (2 * unit) := by
  obtain ⟨k, hk, hunit⟩ := unit_eq_pow
  rw [hunit, two_mul_pow]
  exact representable_pow (by omega)

theorem representable_halfUnit : Representable halfUnit := by
  obtain ⟨k, hk, hhalf⟩ := halfUnit_eq_pow
  rw [hhalf]
  exact representable_pow (by omega)

theorem two_eq :
    (2 : Binary64) = .finite false (2 * unit) representable_two_unit := by
  decide +kernel

theorem half_eq :
    (0.5 : Binary64) = .finite false halfUnit representable_halfUnit := by
  decide +kernel

theorem zero_eq : (0 : Binary64) = .finite false 0 representable_zero := by
  decide +kernel

/-- One number is below another where both stand somewhere and the
first stands lower. -/
theorem lt_iff {a b : Binary64} :
    a < b ↔ ∃ x y, a.rank = some x ∧ b.rank = some y ∧ x < y := by
  change Below a b ↔ _
  unfold Below
  cases a.rank <;> cases b.rank <;> simp

/-- The number of quanta of a finite number. -/
def quanta : Binary64 → Nat
  | .finite _ q _ => q
  | _ => 0

theorem log2_half {n : Nat} (h : 2 ≤ n) : (n / 2).log2 + 1 = n.log2 := by
  rw [Nat.log2_def n, if_pos h]

theorem log2_double {n : Nat} (h : n ≠ 0) : (2 * n).log2 = n.log2 + 1 := by
  have := log2_half (n := 2 * n) (by omega)
  rw [Nat.mul_div_cancel_left n (by decide)] at this
  exact this.symm

theorem log2_mono {m n : Nat} (hm : m ≠ 0) (h : m ≤ n) : m.log2 ≤ n.log2 :=
  (Nat.le_log2 (by omega)).2 (Nat.le_trans (Nat.log2_self_le hm) h)

theorem log2_unit : unit.log2 = 1074 := by
  obtain ⟨k, hk, hunit⟩ := unit_eq_pow
  rw [hunit, ← hk]
  exact Nat.log2_two_pow

/-- Half of a number whose spacing is more than a quantum can be represented. -/
theorem representable_half {n : Nat} (h : Representable n)
    (hbig : 53 < n.log2 + 1) : 2 * (n / 2) = n ∧ Representable (n / 2) := by
  have hn : 2 ≤ n := by
    rcases Nat.lt_or_ge n 2 with hlt | hge
    · have hzero : n = 0 ∨ n = 1 := by omega
      rcases hzero with rfl | rfl <;> exact absurd hbig (by decide)
    · exact hge
  have hlog := log2_half hn
  have hspace : spacing n = 2 * spacing (n / 2) := by
    unfold spacing
    rw [show n.log2 + 1 - 53 = ((n / 2).log2 + 1 - 53) + 1 by omega,
      two_mul_pow]
  obtain ⟨k, hk⟩ := h.spacing_dvd
  have hmul : n = 2 * (spacing (n / 2) * k) := by
    rw [← Nat.mul_assoc, ← hspace]
    exact hk
  have hlimit : n / 2 < limit :=
    Nat.lt_of_le_of_lt (Nat.div_le_self n 2) h.lt_limit
  exact ⟨by omega, ⟨⟨k, by omega⟩, hlimit⟩⟩

/-- Twice a number below one half can be represented. -/
theorem representable_double {n : Nat} (h : Representable n)
    (hsmall : n < halfUnit) : Representable (2 * n) := by
  by_cases hzero : n = 0
  · subst hzero; exact representable_zero
  have hlog := log2_double hzero
  refine ⟨?_, ?_⟩
  · have hdvd : spacing (2 * n) ∣ 2 * spacing n := by
      unfold spacing
      rw [hlog, two_mul_pow]
      exact Nat.pow_dvd_pow 2 (by omega)
    exact Nat.dvd_trans hdvd (Nat.mul_dvd_mul_left 2 h.spacing_dvd)
  · have := two_halfUnit_le_limit
    omega

theorem log2_of_unit_le {n : Nat} (h : unit ≤ n) : 53 < n.log2 + 1 := by
  have hlog := log2_mono (Nat.ne_of_gt unit_pos) h
  rw [log2_unit] at hlog
  omega

/-- Half of a number above 2 is exact. -/
theorem div_two {s : Bool} {n : Nat} {h : Representable n}
    (hbig : 2 * unit < n) :
    ∃ h', (Binary64.finite s n h) / 2 = .finite s (n / 2) h' := by
  have hpos := unit_pos
  obtain ⟨heven, hrep⟩ := representable_half h (log2_of_unit_le (by omega))
  refine ⟨hrep, ?_⟩
  change div _ _ = _
  rw [two_eq]
  simp only [div, Bool.xor_false]
  rw [if_neg (by omega)]
  have hnum : n * unit = n / 2 * (2 * unit) := by
    conv => lhs; rw [← heven]
    rw [Nat.mul_comm 2 (n / 2), Nat.mul_assoc]
  rw [hnum]
  exact ofQuotient_mul s (n / 2) (2 * unit) (by omega) hrep

/-- Twice a number below one half is exact. -/
theorem div_half {s : Bool} {n : Nat} {h : Representable n}
    (hsmall : n < halfUnit) :
    ∃ h', (Binary64.finite s n h) / 0.5 = .finite s (2 * n) h' := by
  have hpos := halfUnit_pos
  refine ⟨representable_double h hsmall, ?_⟩
  change div _ _ = _
  rw [half_eq]
  simp only [div, Bool.xor_false]
  rw [if_neg (by omega)]
  have hnum : n * unit = 2 * n * halfUnit := by
    rw [unit_eq, ← Nat.mul_assoc, Nat.mul_comm n 2]
  rw [hnum]
  exact ofQuotient_mul s (2 * n) halfUnit hpos _

/-- A finite number above 2 has fewer quanta after halving. -/
theorem quanta_div_two_lt {x : Binary64} (hfin : x.isFinite = true)
    (hbig : 2 < x) : (x / 2).quanta < x.quanta := by
  cases x with
  | finite s n h =>
      have hlt : 2 * unit < n := by
        rw [two_eq] at hbig
        obtain ⟨a, b, ha, hb, hab⟩ := lt_iff.1 hbig
        cases s <;> simp only [rank, Option.some.injEq] at ha hb <;> omega
      obtain ⟨h', heq⟩ := div_two (s := s) (h := h) hlt
      rw [heq]
      simp only [quanta]
      omega
  | infinite s => simp [isFinite] at hfin
  | nan => simp [isFinite] at hfin

/-- How often a positive number below one half can be doubled. -/
def doublings (x : Binary64) : Nat := 1073 - x.quanta.log2

/-- A positive number below one half can be doubled less often
after doubling. -/
theorem doublings_div_half_lt {x : Binary64} (hpos : 0 < x) (hsmall : x < 0.5) :
    (x / 0.5).doublings < x.doublings := by
  rw [zero_eq] at hpos
  rw [half_eq] at hsmall
  obtain ⟨z, a, hz, ha, hza⟩ := lt_iff.1 hpos
  obtain ⟨a', b, ha', hb, hab⟩ := lt_iff.1 hsmall
  have hlimit := two_halfUnit_le_limit
  cases x with
  | finite s n h =>
      have hlt : 0 < n ∧ n < halfUnit := by
        cases s <;> simp only [rank, Option.some.injEq] at hz ha ha' hb <;>
          omega
      obtain ⟨h', heq⟩ := div_half (s := s) (h := h) hlt.2
      have hlog : n.log2 < 1073 := by
        obtain ⟨k, hk, hhalf⟩ := halfUnit_eq_pow
        rw [hhalf] at hlt
        rw [← hk]
        exact (Nat.log2_lt (by omega)).2 hlt.2
      have hdouble := log2_double (n := n) (by omega)
      rw [heq]
      simp only [doublings, quanta]
      omega
  | infinite s =>
      cases s <;> simp only [rank, Option.some.injEq] at hz ha ha' hb <;> omega
  | nan => simp [rank] at ha

end Cutlist.Binary64
