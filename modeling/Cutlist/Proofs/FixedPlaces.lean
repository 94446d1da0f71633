import Cutlist.Decimal.Fixed
import Cutlist.Decimal.Reading
import Cutlist.Proofs.Rounding
import Mathlib.Tactic.FieldSimp
import Mathlib.Tactic.Linarith
import Mathlib.Tactic.Ring

/-!
# What a number with a fixed count of places says

Filters carry their numbers as text with a fixed count of decimal places.
`spelled?` reads such a text as the exact number that it spells, with no
rounding of its own, and `written` is that number; so what a filter is told
can be compared with what was meant. The two are never further apart than half
a unit of the last place.
-/

namespace Cutlist

namespace Decimal

def sign (negative : Bool) : ℚ := if negative then -1 else 1

/-- The number that a sign, digits, a point and digits spell. -/
def spelled? (cs : List Char) : Option ℚ :=
  let (negative, ds) := signed cs
  let whole := ds.takeWhile Char.isDigit
  match ds.dropWhile Char.isDigit with
  | '.' :: fraction =>
      if !whole.isEmpty && !fraction.isEmpty && fraction.all Char.isDigit then
        some (sign negative * (value (whole ++ fraction) / 10 ^ fraction.length))
      else none
  | _ => none

/-- The number that a text spells behind certain words. -/
def spelledAfter? (words text : String) : Option ℚ :=
  if words.toList.isPrefixOf text.toList then
    spelled? (text.toList.drop words.toList.length)
  else none

theorem spelledAfter?_append (words text : String) :
    spelledAfter? words (words ++ text) = spelled? text.toList := by
  rw [spelledAfter?, String.toList_append, List.drop_left, if_pos]
  rw [List.isPrefixOf_iff_prefix]
  exact List.prefix_append _ _

/-! ## Digits -/

theorem isDigit_of_mem_digits {n : Nat} {c : Char} (h : c ∈ digits n) :
    c.isDigit = true :=
  Nat.isDigit_of_mem_toDigits (by decide) (by decide) h

theorem isDigit_of_mem_padded {width n : Nat} {c : Char}
    (h : c ∈ padded width n) : c.isDigit = true := by
  rw [padded, List.leftpad, List.mem_append, List.mem_replicate] at h
  rcases h with ⟨_, rfl⟩ | h
  · rfl
  · exact isDigit_of_mem_digits h

theorem length_padded {width n : Nat} (hwidth : 0 < width)
    (h : n < 10 ^ width) : (padded width n).length = width := by
  rw [padded, List.length_leftpad]
  have := (Nat.length_toDigits_le_iff (by decide) hwidth).2 h
  exact Nat.max_eq_left this

theorem padded_ne_nil (width n : Nat) : padded width n ≠ [] := by
  rw [padded, List.leftpad, ← List.length_pos_iff, List.length_append,
    List.length_replicate]
  have := List.length_pos_iff.2 (Nat.toDigits_ne_nil (b := 10) (n := n))
  exact Nat.lt_of_lt_of_le this (Nat.le_add_left _ _)

theorem value_append (xs ys : List Char) :
    value (xs ++ ys) = Nat.ofDigitChars 10 ys (value xs) :=
  Nat.ofDigitChars_append 0

theorem value_digits (n : Nat) : value (digits n) = n :=
  Nat.ofDigitChars_ten_toDigits

theorem ofDigitChars_shift (cs : List Char) (n : Nat) :
    Nat.ofDigitChars 10 cs n = n * 10 ^ cs.length + value cs := by
  induction cs generalizing n with
  | nil => simp [value]
  | cons c cs ih =>
      have hvalue : value (c :: cs) =
          Nat.ofDigitChars 10 cs (c.toNat - '0'.toNat) := by
        change Nat.ofDigitChars 10 cs (10 * 0 + _) = _
        rw [Nat.mul_zero, Nat.zero_add]
      change Nat.ofDigitChars 10 cs (10 * n + (c.toNat - '0'.toNat)) = _
      rw [hvalue, ih, ih (c.toNat - '0'.toNat), List.length_cons, Nat.pow_succ]
      ring

theorem value_cons (c : Char) (cs : List Char) :
    value (c :: cs) = (c.toNat - '0'.toNat) * 10 ^ cs.length + value cs := by
  rw [← ofDigitChars_shift cs (c.toNat - '0'.toNat)]
  change Nat.ofDigitChars 10 cs (10 * 0 + _) = _
  rw [Nat.mul_zero, Nat.zero_add]

theorem value_lt {cs : List Char} (hcs : ∀ c ∈ cs, c.isDigit = true) :
    value cs < 10 ^ cs.length := by
  induction cs with
  | nil => exact Nat.one_pos
  | cons c cs ih =>
      have hc : c.toNat - '0'.toNat ≤ 9 := by
        have hdigit := hcs c List.mem_cons_self
        rw [Char.isDigit_iff_toNat] at hdigit
        have : '9'.toNat = '0'.toNat + 9 := rfl
        omega
      have hrest := ih fun x hx => hcs x (List.mem_cons_of_mem _ hx)
      have := Nat.mul_le_mul_right (10 ^ cs.length) hc
      rw [value_cons, List.length_cons, Nat.pow_succ]
      omega

theorem value_padded (width n : Nat) : value (padded width n) = n := by
  have hzeros : ∀ k, value (List.replicate k '0') = 0 := by
    intro k
    induction k with
    | zero => rfl
    | succ k ih =>
        rw [List.replicate_succ', value_append, ih]
        rfl
  rw [padded, List.leftpad, value_append, hzeros]
  exact value_digits n

theorem takeWhile_digits {ds rest : List Char}
    (hds : ∀ c ∈ ds, c.isDigit = true) :
    (ds ++ '.' :: rest).takeWhile Char.isDigit = ds := by
  rw [List.takeWhile_append_of_pos hds]
  simp [show Char.isDigit '.' = false by decide]

theorem dropWhile_digits {ds rest : List Char}
    (hds : ∀ c ∈ ds, c.isDigit = true) :
    (ds ++ '.' :: rest).dropWhile Char.isDigit = '.' :: rest := by
  rw [List.dropWhile_append_of_pos hds]
  simp [show Char.isDigit '.' = false by decide]

/-- Digits with a point before the last of them spell a count of units. -/
theorem spelled?_pointed {places : Nat} (hplaces : 0 < places)
    (negative : Bool) (n : Nat) :
    spelled? (minus negative ++ pointed places n) =
      some (sign negative * ((n : ℚ) / 10 ^ places)) := by
  have hfraction : n % 10 ^ places < 10 ^ places :=
    Nat.mod_lt _ (Nat.pow_pos (by decide))
  have hwhole : ∀ c ∈ digits (n / 10 ^ places), c.isDigit = true :=
    fun c hc => isDigit_of_mem_digits hc
  have hlength := length_padded hplaces hfraction
  have hvalue : value (digits (n / 10 ^ places) ++
      padded places (n % 10 ^ places)) = n := by
    rw [value_append, ofDigitChars_shift, value_digits, value_padded, hlength]
    exact Nat.div_add_mod' n (10 ^ places)
  have hne : digits (n / 10 ^ places) ≠ [] := Nat.toDigits_ne_nil
  -- What is read as a sign is only the minus: otherwise a digit comes first.
  have hsigned : signed (minus negative ++ pointed places n) =
      (negative, pointed places n) := by
    cases negative with
    | true => rfl
    | false =>
        obtain ⟨c, cs, hcs⟩ := List.exists_cons_of_ne_nil hne
        have hc : c.isDigit = true := hwhole c (by rw [hcs]; simp)
        change signed (digits (n / 10 ^ places) ++ _) =
          (false, digits (n / 10 ^ places) ++ _)
        rw [hcs, List.cons_append, signed]
        · rintro r heq
          cases (List.cons.inj heq).1
          cases hc
        · rintro r heq
          cases (List.cons.inj heq).1
          cases hc
  have hnil : padded places (n % 10 ^ places) ≠ [] := by
    rw [← List.length_pos_iff, hlength]
    exact hplaces
  have hpointed : pointed places n = digits (n / 10 ^ places) ++
      '.' :: padded places (n % 10 ^ places) := rfl
  have hall : (padded places (n % 10 ^ places)).all Char.isDigit = true :=
    List.all_eq_true.2 fun c hc => isDigit_of_mem_padded hc
  rw [spelled?, hsigned]
  simp only [hpointed, takeWhile_digits hwhole, dropWhile_digits hwhole, hall,
    hvalue, hlength, List.isEmpty_eq_false_iff.2 hne,
    List.isEmpty_eq_false_iff.2 hnil, Bool.not_false, Bool.and_self, if_true]

end Decimal

namespace Binary64

open Decimal

/-- The number that a finite number is written as with a count of places. -/
def written (places : Nat) : Binary64 → ℚ
  | .finite s q _ => sign s * ((decimalUnits places q : ℚ) / 10 ^ places)
  | _ => 0

theorem spelled?_toFixed {places : Nat} (hplaces : 0 < places) {x : Binary64}
    (hx : x.isFinite = true) :
    spelled? (x.toFixed places).toList = some (x.written places) := by
  cases x with
  | finite s q hq =>
      rw [toFixed, String.toList_ofList]
      exact spelled?_pointed hplaces s _
  | infinite s => cases hx
  | nan => cases hx

/-! ## The distance from what was meant -/

/-- The nearest whole number is at most one half away. -/
theorem roundHalfEven_near {num den : Nat} (hden : 0 < den) :
    2 * (roundHalfEven num den * den) ≤ 2 * num + den ∧
      2 * num ≤ 2 * (roundHalfEven num den * den) + den := by
  have hsplit := Nat.div_add_mod' num den
  have hmod := Nat.mod_lt num hden
  have hup : (num / den + 1) * den = num / den * den + den := Nat.succ_mul _ _
  unfold roundHalfEven
  dsimp only
  split
  · omega
  · split
    · omega
    · split
      · omega
      · omega

theorem value_finite (s : Bool) (q : Nat) (hq : Representable q) :
    (Binary64.finite s q hq).value = sign s * ((q : ℚ) / unit) := by
  cases s with
  | true => simp [value, ticks, signed, sign, neg_div]
  | false => simp [value, ticks, signed, sign]

/-- What is written is at most half a unit of the last place away. -/
theorem abs_written_sub_value_le (places : Nat) {x : Binary64}
    (hx : x.isFinite = true) :
    |x.written places - x.value| ≤ 1 / (2 * 10 ^ places) := by
  cases x with
  | finite s q hq =>
      have hnear : 2 * (decimalUnits places q * unit) ≤
          2 * (q * 10 ^ places) + unit ∧ 2 * (q * 10 ^ places) ≤
            2 * (decimalUnits places q * unit) + unit :=
              roundHalfEven_near unit_pos
      obtain ⟨habove, hbelow⟩ := hnear
      have hunit : (0 : ℚ) < unit := by exact_mod_cast unit_pos
      have hpow : (0 : ℚ) < 10 ^ places := by positivity
      -- The rounding is the same for both signs, so it is compared without one.
      have hquotient : |(decimalUnits places q : ℚ) / 10 ^ places - q / unit| ≤
          1 / (2 * 10 ^ places) := by
        have habove' : 2 * ((decimalUnits places q : ℚ) * unit) ≤
            2 * (q * 10 ^ places) + unit := by exact_mod_cast habove
        have hbelow' : 2 * ((q : ℚ) * 10 ^ places) ≤
            2 * (decimalUnits places q * unit) + unit := by exact_mod_cast hbelow
        have hcommon : (decimalUnits places q : ℚ) / 10 ^ places - q / unit =
            (decimalUnits places q * unit - q * 10 ^ places) /
              (10 ^ places * unit) := by
          field_simp
        rw [hcommon, abs_div, abs_of_pos (mul_pos hpow hunit),
          div_le_div_iff₀ (mul_pos hpow hunit) (by positivity)]
        have habs : |(decimalUnits places q : ℚ) * unit - q * 10 ^ places| ≤
            unit / 2 := abs_le.2 ⟨by linarith, by linarith⟩
        calc |(decimalUnits places q : ℚ) * unit - q * 10 ^ places| *
              (2 * 10 ^ places)
            ≤ unit / 2 * (2 * 10 ^ places) := by gcongr
          _ = 1 * (10 ^ places * unit) := by ring
      rw [value_finite, written, ← mul_sub, abs_mul]
      cases s with
      | true => simpa [sign] using hquotient
      | false => simpa [sign] using hquotient
  | infinite s => cases hx
  | nan => cases hx

end Binary64

end Cutlist
