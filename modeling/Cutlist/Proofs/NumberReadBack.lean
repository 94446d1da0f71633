import Cutlist.Json.Printer
import Cutlist.Json.Reader
import Cutlist.Proofs.ShortestReadsBack

/-!
# Numbers in a text are read back

A number is written with a point, or with an exponent when it is very large or
very small, and the reader takes as much as it can for the number. What stops it
is what the writer puts behind a value: a comma, the end of a line, or nothing.
-/

namespace Cutlist

open Decimal

namespace Decimal

/-- Nothing more of a number follows. -/
def Stops (rest : List Char) : Prop :=
  ∀ c r, rest = c :: r → c.isDigit = false

theorem stops_cons {c : Char} {r : List Char} (h : c.isDigit = false) :
    Stops (c :: r) := by
  rintro _ _ ⟨⟩
  exact h

theorem takeWhile_stops {ds rest : List Char}
    (hds : ∀ c ∈ ds, c.isDigit = true) (hrest : Stops rest) :
    (ds ++ rest).takeWhile Char.isDigit = ds := by
  rw [List.takeWhile_append_of_pos hds]
  cases rest with
  | nil => simp
  | cons c r => simp [hrest c r rfl]

theorem dropWhile_stops {ds rest : List Char}
    (hds : ∀ c ∈ ds, c.isDigit = true) (hrest : Stops rest) :
    (ds ++ rest).dropWhile Char.isDigit = rest := by
  rw [List.dropWhile_append_of_pos hds]
  cases rest with
  | nil => rfl
  | cons c r => simp [hrest c r rfl]

theorem value_zeros_front (k : Nat) (ds : List Char) :
    value (List.replicate k '0' ++ ds) = value ds := by
  induction k with
  | zero => rfl
  | succ k ih =>
      rw [List.replicate_succ, List.cons_append, value_cons, ih, Nat.sub_self,
        Nat.zero_mul, Nat.zero_add]

/-! ## The forms of a number -/

/-- Digits before a point and after it that stand for a decimal in the basin of
a number. -/
structure Pointed (whole fraction : List Char) (q : Nat) : Prop where
  isDigit : ∀ c ∈ whole ++ fraction, c.isDigit = true
  leading : whole = ['0'] ∨ ∃ c r, whole = c :: r ∧ c ≠ '0'
  nonempty : fraction ≠ []
  reads : Binary64.Reads q (value (whole ++ fraction)) (-fraction.length)

namespace Scaled.Spells

variable {d : Scaled} {q : Nat}

theorem digits_ne_nil (h : d.Spells q) : d.digits ≠ [] := by
  obtain ⟨c, r, hdigits, _⟩ := h.leading
  rw [hdigits]
  exact List.cons_ne_nil _ _

theorem pointed_small (h : d.Spells q) (hpoint : d.point ≤ 0) :
    Pointed ['0'] (List.replicate (-d.point).toNat '0' ++ d.digits) q := by
  constructor
  · intro c hc
    simp only [List.cons_append, List.nil_append, List.mem_cons,
      List.mem_append, List.mem_replicate] at hc
    rcases hc with rfl | ⟨_, rfl⟩ | hc
    · rfl
    · rfl
    · exact h.isDigit c hc
  · exact .inl rfl
  · simp [h.digits_ne_nil]
  · have hvalue : value (['0'] ++ (List.replicate (-d.point).toNat '0' ++
        d.digits)) = value d.digits := by
      rw [← List.append_assoc]
      exact value_zeros_front ((-d.point).toNat + 1) d.digits
    rw [hvalue]
    convert h.reads using 1
    rw [List.length_append, List.length_replicate]
    omega

theorem pointed_whole (h : d.Spells q) (hpoint : d.digits.length ≤ d.point) :
    Pointed (d.digits ++ List.replicate (d.point.toNat - d.digits.length) '0')
      ['0'] q := by
  constructor
  · intro c hc
    simp only [List.mem_append, List.mem_replicate, List.mem_singleton] at hc
    rcases hc with (hc | ⟨_, rfl⟩) | rfl
    · exact h.isDigit c hc
    · rfl
    · rfl
  · obtain ⟨c, r, hdigits, hne⟩ := h.leading
    exact .inr ⟨c, _, by rw [hdigits, List.cons_append], hne⟩
  · exact List.cons_ne_nil _ _
  · have hvalue : value (d.digits ++ List.replicate
        (d.point.toNat - d.digits.length) '0' ++ ['0']) = value d.digits *
          10 ^ (d.point.toNat - d.digits.length + 1) := by
      rw [List.append_assoc, ← List.replicate_succ', value_zeros]
    rw [hvalue]
    convert (Binary64.reads_mul_pow _).2 h.reads using 1
    rw [List.length_singleton]
    omega

theorem pointed_inside (h : d.Spells q) (hlow : 0 < d.point)
    (hhigh : d.point < d.digits.length) :
    Pointed (d.digits.take d.point.toNat) (d.digits.drop d.point.toNat) q := by
  constructor
  · intro c hc
    rw [List.take_append_drop] at hc
    exact h.isDigit c hc
  · obtain ⟨c, r, hdigits, hne⟩ := h.leading
    obtain ⟨n, hn⟩ : ∃ n, d.point.toNat = n + 1 := ⟨d.point.toNat - 1, by omega⟩
    exact .inr ⟨c, _, by rw [hdigits, hn, List.take_succ_cons], hne⟩
  · rw [ne_eq, List.drop_eq_nil_iff]
    omega
  · rw [List.take_append_drop]
    convert h.reads using 1
    rw [List.length_drop]
    omega

/-- The digits of a number with the point where it belongs, or no point when all
digits stand before it. -/
theorem positional_cases (h : d.Spells q) :
    (∃ whole fraction, d.positional = whole ++ '.' :: fraction ∧
      Pointed whole fraction q) ∨ Pointed d.positional ['0'] q := by
  rw [Scaled.positional]
  split
  · next hsmall => exact .inl ⟨_, _, rfl, h.pointed_small hsmall⟩
  · dsimp only
    split
    · exact .inr (h.pointed_whole (by omega))
    · exact .inl ⟨_, _, rfl, h.pointed_inside (by omega) (by omega)⟩

/-- A number is written with a point, or with one digit before the point and an
exponent. -/
theorem general_cases (h : d.Spells q) :
    (∃ whole fraction, d.general = whole ++ '.' :: fraction ∧
      Pointed whole fraction q) ∨ d.general = d.scientific := by
  have hpoint : ∀ ds : List Char, (∀ c ∈ ds, c.isDigit = true) →
      ds.contains '.' = false := by
    intro ds hds
    rw [Bool.eq_false_iff, ne_eq, List.contains_iff_mem]
    exact fun hmem => absurd (hds _ hmem) (by decide)
  rw [Scaled.general]
  split
  · refine .inl ?_
    dsimp only
    rcases h.positional_cases with ⟨whole, fraction, htext, hpointed⟩ | hpointed
    · refine ⟨whole, fraction, ?_, hpointed⟩
      simp [htext]
    · refine ⟨d.positional, ['0'], ?_, hpointed⟩
      rw [hpoint _ fun c hc => hpointed.isDigit c (List.mem_append_left _ hc)]
      rfl
  · exact .inr rfl

theorem general_digit (h : d.Spells q) :
    ∃ c r, d.general = c :: r ∧ c.isDigit = true := by
  rcases h.general_cases with ⟨whole, fraction, heq, hpointed⟩ | heq
  · rcases hpointed.leading with rfl | ⟨c, r, rfl, _⟩
    · exact ⟨'0', _, heq, rfl⟩
    · exact ⟨c, _, heq, hpointed.isDigit c List.mem_cons_self⟩
  · obtain ⟨c, r, hdigits, _⟩ := h.leading
    have hc := h.isDigit c (by rw [hdigits]; exact List.mem_cons_self)
    rw [heq, Scaled.scientific, hdigits]
    exact ⟨c, _, rfl, hc⟩

end Scaled.Spells

theorem toShortest_digit (s : Bool) {q : Nat}
    (hrep : Binary64.Representable q) :
    ∃ c r, (Binary64.finite s q hrep).toShortest.toList = minus s ++ c :: r ∧
      c.isDigit = true := by
  rw [Binary64.toShortest, String.toList_ofList]
  by_cases hq : q = 0
  · subst hq
    exact ⟨'0', ['.', '0'], by cases s <;> decide +kernel, rfl⟩
  · obtain ⟨c, r, heq, hc⟩ := (spells_shortest hq hrep).general_digit
    exact ⟨c, r, by rw [heq], hc⟩

theorem toList_toString_int (n : Int) :
    (toString n).toList = minus (decide (n < 0)) ++ digits n.natAbs := by
  have hnat (m : Nat) : (toString m).toList = digits m := by
    rw [Nat.toString_eq_ofList_toDigits, String.toList_ofList]
    rfl
  cases n with
  | ofNat m => exact hnat m
  | negSucc m =>
      show ("-" ++ toString (m + 1)).toList = _
      rw [String.toList_append, hnat, decide_eq_true (Int.negSucc_lt_zero m)]
      rfl

theorem toString_digit (n : Int) :
    ∃ c r, (toString n).toList = minus (decide (n < 0)) ++ c :: r ∧
      c.isDigit = true := by
  obtain ⟨c, r, hdigits⟩ := List.exists_cons_of_ne_nil
    (Nat.toDigits_ne_nil (b := 10) (n := n.natAbs))
  refine ⟨c, r, ?_, isDigit_of_mem_digits (n := n.natAbs) ?_⟩
  · rw [toList_toString_int, digits, hdigits]
  · rw [digits, hdigits]
    exact List.mem_cons_self

end Decimal

namespace Json.Reader

/-- What follows a value: a comma, the end of a line, or nothing. -/
def Closes (rest : List Char) : Prop :=
  ∀ c r, rest = c :: r → c = ',' ∨ c = '\n'

theorem closes_nil : Closes [] := nofun

theorem closes_comma (r : List Char) : Closes (',' :: r) := by
  rintro _ _ ⟨⟩
  exact .inl rfl

theorem closes_newline (r : List Char) : Closes ('\n' :: r) := by
  rintro _ _ ⟨⟩
  exact .inr rfl

theorem Closes.stops {rest : List Char} (h : Closes rest) : Stops rest := by
  intro c r hrest
  rcases h c r hrest with rfl | rfl <;> rfl

section Numbers

variable {whole fraction tail rest : List Char} {q : Nat}

/-- A sign and the first digits are taken off, and the rest is a matter of the
magnitude. -/
theorem number_eq_magnitude (s : Bool) (hwhole : ∀ c ∈ whole, c.isDigit = true)
    (hlead : whole = ['0'] ∨ ∃ c r, whole = c :: r ∧ c ≠ '0')
    (htail : Stops tail) :
    number (minus s ++ (whole ++ tail)) = magnitude s whole tail := by
  rcases hlead with rfl | ⟨c, r, rfl, hne⟩
  · cases s <;> rfl
  · have hc := hwhole c List.mem_cons_self
    have hminus : c ≠ '-' := by
      rintro rfl
      exact absurd hc (by decide)
    have htake := takeWhile_stops hwhole htail
    have hdrop := dropWhile_stops hwhole htail
    calc number (minus s ++ (c :: r ++ tail))
        = magnitude s ((c :: r ++ tail).takeWhile Char.isDigit)
            ((c :: r ++ tail).dropWhile Char.isDigit) := by
          cases s with
          | true => simp [number, minus, hc]
          | false => simp [number, minus, hminus, hc]
      _ = magnitude s (c :: r) tail := by rw [htake, hdrop]

theorem fractionPart_point (hdigits : ∀ c ∈ fraction, c.isDigit = true)
    (hne : fraction ≠ []) (hrest : Stops rest) :
    fractionPart ('.' :: (fraction ++ rest)) = some (fraction, rest) := by
  rw [fractionPart, takeWhile_stops hdigits hrest,
    dropWhile_stops hdigits hrest, if_neg]
  rwa [List.isEmpty_iff]

theorem fractionPart_closes (hrest : Closes rest) : fractionPart rest = none := by
  rw [fractionPart.eq_def]
  split
  · next r =>
      rcases hrest _ _ rfl with h | h <;> exact absurd h (by decide)
  · rfl

theorem exponentPart_closes (hrest : Closes rest) : exponentPart rest = none := by
  cases rest with
  | nil => rfl
  | cons c r => rcases hrest c r rfl with rfl | rfl <;> rfl

theorem exponentPart_written (n : Int) (hrest : Stops rest) :
    exponentPart ('e' :: (if n < 0 then '-' else '+') ::
      (padded 2 n.natAbs ++ rest)) = some (n, rest) := by
  have hdigits : ∀ c ∈ padded 2 n.natAbs, c.isDigit = true :=
    fun c hc => isDigit_of_mem_padded hc
  have hnonempty : (padded 2 n.natAbs).isEmpty = false := by
    rw [← Bool.not_eq_true, List.isEmpty_iff]
    exact padded_ne_nil _ _
  have hsign : signed ((if n < 0 then '-' else '+') ::
      (padded 2 n.natAbs ++ rest)) =
        (decide (n < 0), padded 2 n.natAbs ++ rest) := by
    by_cases hneg : n < 0
    · rw [if_pos hneg, decide_eq_true hneg]
      rfl
    · rw [if_neg hneg, decide_eq_false hneg]
      rfl
  rw [exponentPart, if_pos (by decide), hsign]
  dsimp only
  rw [takeWhile_stops hdigits hrest, dropWhile_stops hdigits hrest, hnonempty,
    value_padded, if_neg Bool.false_ne_true]
  congr 2
  by_cases hneg : n < 0
  · rw [decide_eq_true hneg, if_pos rfl]
    omega
  · rw [decide_eq_false hneg, if_neg Bool.false_ne_true]
    omega

/-- A number with a fraction or an exponent is a real number. -/
theorem magnitude_of_parts {s : Bool} {cs : List Char}
    {f : Option (List Char × List Char)} {e : Option (Int × List Char)}
    (hf : fractionPart cs = f)
    (he : exponentPart ((f.map (·.2)).getD cs) = e)
    (hsome : (f.isNone && e.isNone) = false) :
    magnitude s whole cs = .ok (.real (scaled s whole ((f.map (·.1)).getD [])
      ((e.map (·.1)).getD 0)), (e.map (·.2)).getD ((f.map (·.2)).getD cs)) := by
  subst hf he
  rw [magnitude, if_neg]
  rw [hsome]
  exact Bool.false_ne_true

theorem magnitude_pointed (s : Bool) (h : Pointed whole fraction q)
    (hq : q ≠ 0) (hrep : Binary64.Representable q) (hrest : Closes rest) :
    magnitude s whole ('.' :: (fraction ++ rest)) =
      .ok (.real (.finite s q hrep), rest) := by
  have hfraction := fractionPart_point
    (fun c hc => h.isDigit c (List.mem_append_right _ hc)) h.nonempty hrest.stops
  have hscaled : scaled s whole fraction 0 = .finite s q hrep := by
    have := h.reads.ofDecimal hq hrep (value_lt h.isDigit) s
    rwa [← Int.zero_sub] at this
  rw [magnitude_of_parts hfraction (exponentPart_closes hrest) rfl]
  dsimp only [Option.map_some, Option.map_none, Option.getD_some,
    Option.getD_none]
  rw [hscaled]

/-- A number with an exponent, and with a point if there is more than a digit. -/
theorem magnitude_scientific (s : Bool) (c : Char) {r : List Char}
    (hr : ∀ x ∈ r, x.isDigit = true) (n : Int) (hrest : Closes rest) :
    magnitude s [c] ((if r.isEmpty then [] else '.' :: r) ++ 'e' ::
        (if n < 0 then '-' else '+') :: (padded 2 n.natAbs ++ rest)) =
      .ok (.real (scaled s [c] r n), rest) := by
  have hexponent := exponentPart_written n hrest.stops
  cases r with
  | nil =>
      rw [List.isEmpty_nil, if_pos rfl, List.nil_append]
      have hnone : fractionPart ('e' :: (if n < 0 then '-' else '+') ::
          (padded 2 n.natAbs ++ rest)) = none := rfl
      exact magnitude_of_parts hnone hexponent rfl
  | cons x xs =>
      have htail : Stops ('e' :: (if n < 0 then '-' else '+') ::
          (padded 2 n.natAbs ++ rest)) := stops_cons rfl
      have hfraction := fractionPart_point hr (List.cons_ne_nil _ _) htail
      rw [List.isEmpty_cons, if_neg Bool.false_ne_true, List.cons_append]
      exact magnitude_of_parts hfraction hexponent rfl

theorem number_general {d : Scaled} (h : d.Spells q) (hq : q ≠ 0)
    (hrep : Binary64.Representable q) (s : Bool) (hrest : Closes rest) :
    number (minus s ++ (d.general ++ rest)) =
      .ok (.real (.finite s q hrep), rest) := by
  rcases h.general_cases with ⟨whole, fraction, heq, hpointed⟩ | heq
  · rw [heq, List.append_assoc, List.cons_append,
      number_eq_magnitude s
        (fun c hc => hpointed.isDigit c (List.mem_append_left _ hc))
        hpointed.leading (stops_cons rfl)]
    exact magnitude_pointed s hpointed hq hrep hrest
  · obtain ⟨c, r, hdigits, hne⟩ := h.leading
    have hdigit := h.isDigit
    have hreads := h.reads
    rw [hdigits] at hdigit hreads
    have hscaled : scaled s [c] r (d.point - 1) = .finite s q hrep := by
      have hwidth := value_lt hdigit
      have hread := hreads.ofDecimal hq hrep hwidth s
      have hexp : d.point - (c :: r).length = d.point - 1 - r.length := by
        rw [List.length_cons]
        omega
      rwa [hexp] at hread
    have htext : minus s ++ (d.general ++ rest) = minus s ++ ([c] ++
        ((if r.isEmpty then [] else '.' :: r) ++ 'e' ::
          (if d.point - 1 < 0 then '-' else '+') ::
            (padded 2 (d.point - 1).natAbs ++ rest))) := by
      rw [heq, Scaled.scientific, hdigits]
      simp
    rw [htext, number_eq_magnitude s (by simpa using hdigit c List.mem_cons_self)
      (.inr ⟨c, [], rfl, hne⟩), magnitude_scientific s c (fun x hx =>
        hdigit x (List.mem_cons_of_mem _ hx)) _ hrest, hscaled]
    split <;> exact stops_cons rfl

/-- A finite number is read back as it was written. -/
theorem number_toShortest (s : Bool) (hrep : Binary64.Representable q)
    (hrest : Closes rest) :
    number ((Binary64.finite s q hrep).toShortest.toList ++ rest) =
      .ok (.real (.finite s q hrep), rest) := by
  rw [Binary64.toShortest, String.toList_ofList, List.append_assoc]
  by_cases hq : q = 0
  · subst hq
    have hzero : (Binary64.shortest 0).general = ['0'] ++ '.' :: ['0'] := by
      decide +kernel
    have hdigit : ∀ c ∈ ['0'], c.isDigit = true := by simp
    have hfraction := fractionPart_point hdigit (List.cons_ne_nil _ _) hrest.stops
    have hpoint : Stops ('.' :: (['0'] ++ rest)) := stops_cons rfl
    have hnumber := number_eq_magnitude s hdigit (.inl rfl) hpoint
    rw [magnitude_of_parts hfraction (exponentPart_closes hrest) rfl] at hnumber
    rw [hzero]
    exact hnumber
  · exact number_general (spells_shortest hq hrep) hq hrep s hrest

/-- A whole number with no more digits than are read. -/
theorem number_whole {n : Int} (hn : n.natAbs < 10 ^ maxDigits)
    (hrest : Closes rest) :
    number (Printer.whole n ++ rest) = .ok (.int n, rest) := by
  have hlength : (digits n.natAbs).length ≤ maxDigits :=
    (Nat.length_toDigits_le_iff (by decide) (by decide)).2 hn
  have hlead : digits n.natAbs = ['0'] ∨
      ∃ c r, digits n.natAbs = c :: r ∧ c ≠ '0' := by
    by_cases hzero : n.natAbs = 0
    · rw [hzero]
      exact .inl rfl
    · exact .inr (digits_leading hzero)
  rw [Printer.whole, toList_toString_int, List.append_assoc,
    number_eq_magnitude _ (fun c hc => isDigit_of_mem_digits hc) hlead
      hrest.stops, magnitude, fractionPart_closes hrest]
  dsimp only [Option.map_none, Option.getD_none]
  rw [if_pos (by rw [exponentPart_closes hrest]; rfl),
    if_neg (Nat.not_lt.2 hlength), value_digits]
  congr 3
  by_cases hneg : n < 0
  · rw [decide_eq_true hneg, if_pos rfl]
    omega
  · rw [decide_eq_false hneg, if_neg Bool.false_ne_true]
    omega

end Numbers

end Json.Reader

end Cutlist
