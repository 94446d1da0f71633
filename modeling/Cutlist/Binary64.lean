/-!
# Binary floating-point numbers of double precision

Times, speeds, gains and places are numbers of this type. A finite number is a
sign and a whole number of *quanta*; the quantum is `2 ^ -1074`, the least
positive number. In quanta every finite number is a natural number, so order is
the order of integers, a sum is exact before it is rounded, and there is one
rounding, `Binary64.nearest`: to the nearest number with 53 significant bits, a
tie to the even one.

The two zeros differ as values of the type and agree in order, and not-a-number
is below, above and equal to nothing.
-/

namespace Cutlist

namespace Binary64

/-- Quanta in the number one. -/
@[irreducible] def unit : Nat := Nat.pow 2 1074

/-- The least number of quanta that is too large for a finite
number, `2 ^ 1024`. -/
@[irreducible] def limit : Nat := Nat.pow 2 2098

/-- The gap between neighbouring numbers at `n` quanta: 53 significant bits, and
never less than one quantum. -/
def spacing (n : Nat) : Nat := Nat.pow 2 (n.log2 + 1 - 53)

/-- A number of quanta that a finite number can have. -/
structure Representable (n : Nat) : Prop where
  spacing_dvd : spacing n ∣ n
  lt_limit : n < limit

instance (n : Nat) : Decidable (Representable n) :=
  decidable_of_iff (spacing n ∣ n ∧ n < limit)
    ⟨fun h => ⟨h.1, h.2⟩, fun h => ⟨h.spacing_dvd, h.lt_limit⟩⟩

/-- The whole number nearest to `num / den`; a tie goes to the even one. -/
def roundHalfEven (num den : Nat) : Nat :=
  let q := num / den
  let twice := 2 * (num % den)
  if twice < den then q
  else if den < twice then q + 1
  else if q % 2 = 0 then q else q + 1

/-- The number of quanta with 53 significant bits nearest to
`num / den` quanta. -/
def nearest (num den : Nat) : Nat :=
  let gap := spacing (num / den)
  roundHalfEven num (den * gap) * gap

theorem roundHalfEven_le (num den : Nat) :
    roundHalfEven num den ≤ num / den + 1 := by
  unfold roundHalfEven
  grind

theorem lt_spacing_mul (n : Nat) : n < Nat.pow 2 53 * spacing n := by
  have hlt : n < 2 ^ (n.log2 + 1) := Nat.lt_log2_self
  have hle : n.log2 + 1 ≤ 53 + (n.log2 + 1 - 53) := by omega
  calc n < 2 ^ (n.log2 + 1) := hlt
    _ ≤ 2 ^ (53 + (n.log2 + 1 - 53)) := Nat.pow_le_pow_right (by decide) hle
    _ = Nat.pow 2 53 * spacing n := by rw [Nat.pow_add]; rfl

/-- At most 53 bits times a power of two is a multiple of its own spacing. -/
theorem spacing_dvd_mul_pow (m e : Nat) (hm : m ≤ Nat.pow 2 53) :
    spacing (m * Nat.pow 2 e) ∣ m * Nat.pow 2 e := by
  change m ≤ 2 ^ 53 at hm
  change spacing (m * 2 ^ e) ∣ m * 2 ^ e
  by_cases hzero : m = 0
  · simp [hzero]
  by_cases htop : m = 2 ^ 53
  · subst htop
    have hval : (2 : Nat) ^ 53 * 2 ^ e = 2 ^ (53 + e) := by rw [Nat.pow_add]
    rw [hval, spacing, Nat.log2_two_pow]
    exact Nat.pow_dvd_pow 2 (by omega)
  · have hlt : m * 2 ^ e < 2 ^ (53 + e) := by
      rw [Nat.pow_add]
      exact Nat.mul_lt_mul_of_pos_right (by omega) (Nat.two_pow_pos e)
    have hne : m * 2 ^ e ≠ 0 :=
      Nat.mul_ne_zero hzero (Nat.ne_of_gt (Nat.two_pow_pos e))
    have hlog : (m * 2 ^ e).log2 < 53 + e := (Nat.log2_lt hne).2 hlt
    exact Nat.dvd_trans (Nat.pow_dvd_pow 2 (by omega)) (Nat.dvd_mul_left _ _)

theorem spacing_dvd_nearest (num den : Nat) :
    spacing (nearest num den) ∣ nearest num den := by
  apply spacing_dvd_mul_pow
  have hq : num / (den * spacing (num / den)) < Nat.pow 2 53 := by
    rw [← Nat.div_div_eq_div_mul]
    exact (Nat.div_lt_iff_lt_mul (Nat.two_pow_pos _)).2 (lt_spacing_mul _)
  exact Nat.le_trans (roundHalfEven_le _ _) hq

theorem representable_nearest {num den : Nat} (h : nearest num den < limit) :
    Representable (nearest num den) :=
  ⟨spacing_dvd_nearest num den, h⟩

theorem representable_zero : Representable 0 :=
  ⟨Nat.dvd_zero _, by decide +kernel⟩

end Binary64

/-- A binary floating-point number of double precision. -/
inductive Binary64 where
  | finite (negative : Bool) (quanta : Nat)
    (representable : Binary64.Representable quanta)
  | infinite (negative : Bool)
  | nan
  deriving DecidableEq

namespace Binary64

/-! ## Construction -/

/-- The number nearest to `num / den` quanta, with a sign; beyond the largest
finite number it is infinite. -/
def ofQuotient (negative : Bool) (num den : Nat) : Binary64 :=
  if h : nearest num den < limit then
    .finite negative (nearest num den) (representable_nearest h)
  else .infinite negative

def zero (negative : Bool) : Binary64 := .finite negative 0 representable_zero

instance : Inhabited Binary64 := ⟨zero false⟩

/-- The number nearest to a whole number, infinite when that is out of range. -/
def ofInt (n : Int) : Binary64 :=
  ofQuotient (decide (n < 0)) (n.natAbs * unit) 1

/-- The number nearest to a whole number, if it is in range. -/
def ofInt? (n : Int) : Option Binary64 :=
  match ofInt n with
  | .finite s q h => some (.finite s q h)
  | _ => none

/-- The number nearest to `coefficient * 10 ^ exponent`. The coefficient has at
most `width` digits; far outside the range the power of ten is not computed. -/
def ofDecimal (negative : Bool) (coefficient width : Nat) (exponent : Int) :
    Binary64 :=
  if coefficient = 0 then zero negative
  else if exponent > 400 then .infinite negative
  else if exponent + width < -400 then zero negative
  else if exponent < 0 then
    ofQuotient negative (coefficient * unit) (Nat.pow 10 exponent.natAbs)
  else ofQuotient negative (coefficient * unit * Nat.pow 10 exponent.toNat) 1

instance (n : Nat) : OfNat Binary64 n := ⟨ofInt n⟩

instance : OfScientific Binary64 where
  ofScientific m negativeExponent e :=
    ofDecimal false m (m.log2 + 1) (if negativeExponent then -(e : Int) else e)

/-! ## Order -/

/-- Where a number stands: quanta with their sign, the infinities beyond every
finite number. Not-a-number stands nowhere. -/
def rank : Binary64 → Option Int
  | .finite true q _ => some (-(q : Int))
  | .finite false q _ => some (q : Int)
  | .infinite true => some (-(limit : Int))
  | .infinite false => some (limit : Int)
  | .nan => none

/-- Strictly below; false when either is not a number. -/
def Below (a b : Binary64) : Prop :=
  match a.rank, b.rank with
  | some x, some y => x < y
  | _, _ => False

/-- Below or equal; false when either is not a number. -/
def AtMost (a b : Binary64) : Prop :=
  match a.rank, b.rank with
  | some x, some y => x ≤ y
  | _, _ => False

instance : LT Binary64 := ⟨Below⟩

instance : LE Binary64 := ⟨AtMost⟩

instance (a b : Binary64) : Decidable (a < b) := by
  change Decidable (Below a b)
  unfold Below
  split <;> infer_instance

instance (a b : Binary64) : Decidable (a ≤ b) := by
  change Decidable (AtMost a b)
  unfold AtMost
  split <;> infer_instance

def isZero (a : Binary64) : Bool := a.rank == some 0

def isNaN : Binary64 → Bool
  | .nan => true
  | _ => false

def isFinite : Binary64 → Bool
  | .finite .. => true
  | _ => false

theorem ofInt?_eq (n : Int) :
    ofInt? n = if (ofInt n).isFinite then some (ofInt n) else none := by
  -- The nearest number is named, so that nothing tries to compute it.
  have hnearest : ofInt? = fun n => match ofInt n with
    | .finite s q h => some (.finite s q h)
    | _ => none := rfl
  rw [hnearest]
  generalize ofInt = nearest
  dsimp only
  cases nearest n <;> rfl

/-- The smaller of two; the first, unless the second is strictly below it. -/
def lesser (a b : Binary64) : Binary64 := if b < a then b else a

/-- The larger of two; the first, unless the second is strictly above it. -/
def greater (a b : Binary64) : Binary64 := if a < b then b else a

/-- The value brought into `[low, high]`. -/
def clamp (value low high : Binary64) : Binary64 :=
  (value.greater low).lesser high

/-! ## Arithmetic: the exact result, rounded once -/

def neg : Binary64 → Binary64
  | .finite s q h => .finite (!s) q h
  | .infinite s => .infinite (!s)
  | .nan => .nan

def abs : Binary64 → Binary64
  | .finite _ q h => .finite false q h
  | .infinite _ => .infinite false
  | .nan => .nan

/-- Quanta with their sign. -/
def signed (negative : Bool) (quanta : Nat) : Int :=
  if negative then -(quanta : Int) else quanta

/-- A sum of finite numbers that is exactly zero is negative only
when both terms are. -/
def add : Binary64 → Binary64 → Binary64
  | .finite s p _, .finite t q _ =>
      let sum := signed s p + signed t q
      if sum = 0 then zero (s && t)
      else ofQuotient (decide (sum < 0)) sum.natAbs 1
  | .infinite s, .infinite t => if s = t then .infinite s else .nan
  | .infinite s, .finite .. => .infinite s
  | .finite .., .infinite t => .infinite t
  | .nan, _ => .nan
  | _, .nan => .nan

def mul : Binary64 → Binary64 → Binary64
  | .finite s p _, .finite t q _ => ofQuotient (s ^^ t) (p * q) unit
  | .infinite s, .infinite t => .infinite (s ^^ t)
  | .infinite s, .finite t q _ => if q = 0 then .nan else .infinite (s ^^ t)
  | .finite s p _, .infinite t => if p = 0 then .nan else .infinite (s ^^ t)
  | .nan, _ => .nan
  | _, .nan => .nan

def div : Binary64 → Binary64 → Binary64
  | .finite s p _, .finite t q _ =>
      if q = 0 then (if p = 0 then .nan else .infinite (s ^^ t))
      else ofQuotient (s ^^ t) (p * unit) q
  | .finite s _ _, .infinite t => zero (s ^^ t)
  | .infinite s, .finite t _ _ => .infinite (s ^^ t)
  | .infinite _, .infinite _ => .nan
  | .nan, _ => .nan
  | _, .nan => .nan

instance : Neg Binary64 := ⟨neg⟩
instance : Add Binary64 := ⟨add⟩
instance : Sub Binary64 := ⟨fun a b => a.add b.neg⟩
instance : Mul Binary64 := ⟨mul⟩
instance : Div Binary64 := ⟨div⟩

/-! ## Whole numbers -/

/-- Why a number has no whole part. -/
inductive NoWholePart where
  | nan
  | infinite
  deriving DecidableEq

/-- The whole part, toward zero. -/
def truncate : Binary64 → Except NoWholePart Int
  | .finite s q _ => .ok (signed s (q / unit))
  | .infinite _ => .error .infinite
  | .nan => .error .nan

/-- The nearest whole number, a tie to the even one. -/
def round : Binary64 → Except NoWholePart Int
  | .finite s q _ => .ok (signed s (roundHalfEven q unit))
  | .infinite _ => .error .infinite
  | .nan => .error .nan

end Binary64

end Cutlist
