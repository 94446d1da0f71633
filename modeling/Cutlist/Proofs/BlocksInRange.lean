import Cutlist.Proofs.LifeOfARun
import Cutlist.Proofs.NearestInBasin
import Cutlist.Proofs.Results
import Mathlib.Data.List.TakeWhile

/-!
# When a block is out of range

Whole numbers have any size, but the numbers that are compared and multiplied
have a range. A block crosses it in one of three ways: with a count of
milliseconds that is compared with a total, with hours and minutes that have no
nearest number, or with a clock time whose milliseconds are infinite. Each fault
of a step is told apart here, and no other step of a block can cross the range:
in particular the seconds of a clock time are digits and a point, so they may
spell something infinite but never what is no number, and a whole part that was
taken from a number is in range again.
-/

namespace Cutlist

namespace Binary64

/-! ## Whole numbers without a nearest number -/

/-- The least whole number that has no nearest finite number. It stands halfway
between the largest finite number and `2 ^ 1024`, and a tie goes up. -/
@[irreducible] def beyond : Nat := Nat.pow 2 1024 - Nat.pow 2 970

theorem beyond_eq_pow :
    ∃ j k, j = 1024 ∧ k = 970 ∧ beyond = Nat.pow 2 j - Nat.pow 2 k := by
  delta beyond
  exact ⟨_, _, rfl, rfl, rfl⟩

/-- Half of the last gap below the limit. -/
structure HalfGap (half : Nat) : Prop where
  pos : 0 < half
  limit_eq : limit = 2 ^ 54 * half
  beyond_eq : beyond * unit = limit - half
  spacing_eq : ∀ q, 2 ^ 53 * half ≤ q → q < limit → spacing q = 2 * half
  even_dvd : ∀ m, m ≤ 2 ^ 53 → spacing (m * (2 * half)) ∣ m * (2 * half)

theorem exists_halfGap : ∃ half, HalfGap half := by
  obtain ⟨l, hl, hlimit⟩ := limit_eq_pow
  obtain ⟨j, k, hj, hk, hbeyond⟩ := beyond_eq_pow
  obtain ⟨u, hu, hunit⟩ := unit_eq_pow
  obtain ⟨e, he⟩ : ∃ e, e = 2044 := ⟨_, rfl⟩
  have hlimit' : limit = 2 ^ 54 * 2 ^ e := by
    rw [hlimit, ← Nat.pow_add, show l = 54 + e by omega]
    rfl
  refine ⟨2 ^ e, Nat.two_pow_pos e, hlimit', ?_, fun q hlow hhigh => ?_,
    fun m hm => ?_⟩
  · rw [hbeyond, hunit, hlimit', Nat.sub_mul]
    change 2 ^ j * 2 ^ u - 2 ^ k * 2 ^ u = _
    rw [← Nat.pow_add, ← Nat.pow_add, ← Nat.pow_add, show j + u = 54 + e by omega,
      show k + u = e by omega]
  · have hlog : q.log2 = 53 + e := by
      rw [Nat.log2_eq_iff (by have := Nat.two_pow_pos e; omega), Nat.pow_add]
      refine ⟨hlow, ?_⟩
      rw [show 53 + e + 1 = 54 + e by omega, Nat.pow_add, ← hlimit']
      exact hhigh
    rw [spacing, hlog, show 53 + e + 1 - 53 = e + 1 by omega]
    exact Nat.pow_succ'
  · have hpow : 2 * 2 ^ e = Nat.pow 2 (e + 1) := Nat.pow_succ'.symm
    rw [hpow]
    exact spacing_dvd_mul_pow m (e + 1) hm

theorem nearest_lt_limit_iff (q : Nat) :
    nearest q 1 < limit ↔ q < beyond * unit := by
  obtain ⟨half, hpos, hlimit, hbeyond, hspacing, hdvd⟩ := exists_halfGap
  rw [hbeyond]
  constructor
  · -- From halfway on, the nearest number is the limit, or something above it.
    intro h
    refine Nat.lt_of_not_le fun hge => Nat.not_le.2 h ?_
    have hgrid : spacing limit ∣ limit := by
      have := hdvd (2 ^ 53) (Nat.le_refl _)
      rwa [show 2 ^ 53 * (2 * half) = limit by omega] at this
    rcases Nat.lt_or_ge q limit with hlt | hge'
    · have hgap : spacing (q / 1) = 2 * half := by
        rw [Nat.div_one]
        exact hspacing q (by omega) hlt
      refine Nat.le_of_eq (nearest_eq Nat.one_pos hgap ⟨2 ^ 53, by omega⟩
        (by omega)
        (by omega) (.inl ?_)).symm
      rw [show limit = 2 ^ 53 * (2 * half) by omega,
        Nat.mul_div_cancel _ (by omega)]
      rfl
    · exact le_nearest Nat.one_pos hgrid (by omega)
  · intro h
    have hgrid := hdvd (2 ^ 53 - 1) (by omega)
    have hlast : (2 ^ 53 - 1) * (2 * half) + 2 * half = limit := by omega
    refine Nat.lt_of_le_of_lt (m := (2 ^ 53 - 1) * (2 * half)) ?_ (by omega)
    rcases Nat.le_total q ((2 ^ 53 - 1) * (2 * half)) with hle | hge
    · exact nearest_le Nat.one_pos hgrid (by omega)
    -- Short of halfway, the nearest number is the largest one.
    · have hgap : spacing (q / 1) = 2 * half := by
        rw [Nat.div_one]
        exact hspacing q (by omega) (by omega)
      exact Nat.le_of_eq (nearest_eq Nat.one_pos hgap (Nat.dvd_mul_left _ _)
        (by omega) (by omega) (.inr (by omega)))

theorem isFinite_ofQuotient_iff (s : Bool) (num den : Nat) :
    (ofQuotient s num den).isFinite = true ↔ nearest num den < limit := by
  unfold ofQuotient
  split
  · next h => exact ⟨fun _ => h, fun _ => rfl⟩
  · next h =>
      constructor
      · intro hinfinite
        cases hinfinite
      · exact fun hlt => absurd hlt h

theorem ofInt?_eq_none_iff {n : Int} : ofInt? n = none ↔ beyond ≤ n.natAbs := by
  have hrange : nearest (n.natAbs * unit) 1 < limit ↔ n.natAbs < beyond := by
    rw [nearest_lt_limit_iff]
    exact Nat.mul_lt_mul_right unit_pos
  have hfinite : (ofInt n).isFinite = true ↔ n.natAbs < beyond :=
    (isFinite_ofQuotient_iff _ _ _).trans hrange
  rw [ofInt?_eq, ← Nat.not_lt, ← hfinite]
  split
  · next h => exact ⟨nofun, fun hnot => absurd h hnot⟩
  · next h => exact ⟨fun _ => h, fun _ => rfl⟩

theorem isFinite_of_ofInt? {n : Int} {x : Binary64} (h : ofInt? n = some x) :
    x.isFinite = true := by
  rw [ofInt?_eq] at h
  split at h
  · next hfinite =>
      rw [← Option.some.inj h]
      exact hfinite
  · cases h

/-- The whole part of a number is in range. -/
theorem natAbs_truncate_lt {x : Binary64} {n : Int} (h : x.truncate = .ok n) :
    n.natAbs < beyond := by
  cases x with
  | finite s q hq =>
      have hn : n.natAbs = q / unit := by
        cases h
        cases s
        · rfl
        · exact Int.natAbs_neg _
      have hle : n.natAbs * unit ≤ q := by
        rw [hn]
        exact Nat.div_mul_le_self q unit
      have hnear : nearest (n.natAbs * unit) 1 ≤ q :=
        nearest_le Nat.one_pos hq.spacing_dvd (by rwa [Nat.mul_one])
      have hlt := (nearest_lt_limit_iff _).1
        (Nat.lt_of_le_of_lt hnear hq.lt_limit)
      exact (Nat.mul_lt_mul_right unit_pos).1 hlt
  | infinite s => cases h
  | nan => cases h

/-! ## Sums and products that are numbers -/

theorem isNaN_ofDecimal (negative : Bool) (coefficient width : Nat)
    (exponent : Int) :
    (ofDecimal negative coefficient width exponent).isNaN = false := by
  unfold ofDecimal
  split
  · rfl
  split
  · rfl
  split
  · rfl
  split
  · exact isNaN_ofQuotient _ _ _
  · exact isNaN_ofQuotient _ _ _

/-- Of two numbers, one of them finite, the sum is a number. -/
theorem isNaN_add_left {a b : Binary64} (ha : a.isFinite = true)
    (hb : b.isNaN = false) : (a + b).isNaN = false := by
  cases b with
  | finite t q hq => exact isNaN_add ha rfl
  | infinite t =>
      cases a with
      | finite s p hp => rfl
      | infinite s => cases ha
      | nan => cases ha
  | nan => cases hb

theorem isNaN_mul {a b : Binary64} (ha : a.isNaN = false) (hb : b.isFinite = true)
    (hne : b.isZero = false) : (a * b).isNaN = false := by
  cases b with
  | finite t q hq =>
      cases a with
      | finite s p hp => exact isNaN_ofQuotient _ _ _
      | infinite s =>
          have hq : q ≠ 0 := by
            rintro rfl
            cases t <;> cases hne
          change (if q = 0 then nan else infinite (s ^^ t)).isNaN = false
          rw [if_neg hq]
          rfl
      | nan => cases ha
  | infinite t => cases hb
  | nan => cases hb

/-! ## A percentage -/

theorem atMost_of_below {a b : Binary64} (h : a < b) : a ≤ b := by
  obtain ⟨x, y, hx, hy, hlt⟩ := lt_iff.1 h
  change AtMost a b
  rw [AtMost, hx, hy]
  exact Int.le_of_lt hlt

/-- Whatever is brought between 0 and 100 stands there, also what is no number. -/
theorem percent_bounds (y : Binary64) :
    0 ≤ greater 0 (lesser 100 y) ∧ greater 0 (lesser 100 y) ≤ 100 := by
  have hhundred : (0 : Binary64) ≤ 100 := by decide +kernel
  have hlow : (0 : Binary64) ≤ 0 := by decide +kernel
  have hhigh : (100 : Binary64) ≤ 100 := by decide +kernel
  rw [greater]
  split
  · next hpos =>
      refine ⟨atMost_of_below hpos, ?_⟩
      rw [lesser]
      split
      · next hless => exact atMost_of_below hless
      · exact hhigh
  · exact ⟨hlow, hhundred⟩

end Binary64

namespace Decimal

/-! ## The seconds of a clock time -/

variable {cs ds : List Char} {c : Char} {text : String} {x : Binary64}

/-- A digit of any script, or a point. -/
def IsClockChar (c : Char) : Prop := Text.isNumeral c = true ∨ c = '.'

theorem mem_strip {p : Char → Bool} (h : c ∈ Text.strip p cs) : c ∈ cs := by
  rw [Text.strip, List.mem_reverse] at h
  have hmem := (List.dropWhile_sublist p).subset h
  rw [List.mem_reverse] at hmem
  exact (List.dropWhile_sublist p).subset hmem

theorem mem_ungroup {before : Char} (h : ungroup before cs = some ds)
    (hc : c ∈ ds) : c ∈ cs := by
  fun_induction ungroup before cs generalizing ds with
  | case1 =>
      cases h
      exact hc
  | case2 before r hdigits ih => exact List.mem_cons_of_mem _ (ih h hc)
  | case3 before r hdigits => cases h
  | case4 before d r hd ih =>
      obtain ⟨rest, hrest, rfl⟩ := Option.map_eq_some_iff.1 h
      rcases List.mem_cons.1 hc with rfl | hc
      · exact List.mem_cons_self
      · exact List.mem_cons_of_mem _ (ih hrest hc)

theorem mem_signed (h : c ∈ (signed cs).2) : c ∈ cs := by
  unfold signed at h
  split at h
  · exact List.mem_cons_of_mem _ h
  · exact List.mem_cons_of_mem _ h
  · exact h

/-- In such a text every character is an ASCII digit or a point
when it is read. -/
theorem mem_plain (h : ∀ c ∈ text.toList, IsClockChar c) (hc : c ∈ plain text) :
    c.isDigit = true ∨ c = '.' := by
  obtain ⟨d, hd, rfl⟩ := List.mem_map.1 hc
  rcases h d (mem_strip hd) with hdigit | rfl
  · obtain ⟨n, hn⟩ := Option.isSome_iff_exists.1 hdigit
    have hplain : plainDigit d = Nat.digitChar n := by rw [plainDigit, hn]
    have hall : ∀ n < 10, (Nat.digitChar n).isDigit = true := by decide
    exact .inl (hplain ▸ hall n (Text.digit?_lt hn))
  · exact .inr (by decide)

theorem toLower_of_isDigit (h : c.isDigit = true) : c.toLower = c := by
  rw [Char.isDigit, Bool.and_eq_true, decide_eq_true_eq, decide_eq_true_eq] at h
  have hnot : ¬ (c.val ≥ 'A'.val ∧ c.val ≤ 'Z'.val) := fun hupper =>
    absurd (UInt32.le_trans hupper.1 h.2) (by decide)
  exact dif_neg hnot

theorem toLower_ne_n (h : c.isDigit = true ∨ c = '.') : c.toLower ≠ 'n' := by
  rcases h with h | rfl
  · rw [toLower_of_isDigit h]
    rintro rfl
    cases h
  · decide

theorem isNaN_of_unsigned? {negative : Bool}
    (h : unsigned? negative cs = some x) : x.isNaN = false := by
  rw [unsigned?] at h
  dsimp only at h
  split at h
  all_goals
    split at h
    · cases h
    · obtain ⟨exponent, _, rfl⟩ := Option.map_eq_some_iff.1 h
      exact Binary64.isNaN_ofDecimal _ _ _ _

/-- Such a text may spell an infinity, when it is long enough, but it does not
name what is no number. -/
theorem isNaN_of_number? (h : ∀ c ∈ text.toList, IsClockChar c)
    (hx : number? text = some x) : x.isNaN = false := by
  rw [number?] at hx
  obtain ⟨ds, hds, hx⟩ := Option.bind_eq_some_iff.1 hx
  have hchars : ∀ c ∈ (signed ds).2, c.isDigit = true ∨ c = '.' :=
    fun c hc => mem_plain h (mem_ungroup hds (mem_signed hc))
  dsimp only at hx
  split at hx
  · cases hx
    rfl
  split at hx
  · next hname =>
      have hspelled : (signed ds).2.map Char.toLower = "nan".toList := by
        rw [← beq_iff_eq.1 hname, String.toList_ofList]
      have hn : 'n' ∈ (signed ds).2.map Char.toLower := by
        rw [hspelled]
        decide
      obtain ⟨c, hc, hlower⟩ := List.mem_map.1 hn
      exact absurd hlower (toLower_ne_n (hchars c hc))
  · exact isNaN_of_unsigned? hx

end Decimal

namespace Run

open Decimal

/-! ## Clock times -/

section ClockTimes

variable {cs ds : List Char} {clock : Clock}

theorem isClockChar_of_takeWhile {c : Char}
    (h : c ∈ cs.takeWhile Text.isNumeral) : IsClockChar c :=
  .inl (List.mem_takeWhile_imp h)

theorem isClockChar_of_secondDigits? (h : secondDigits? cs = some ds) :
    ∀ c ∈ ds, IsClockChar c := by
  rw [secondDigits?] at h
  split at h
  · cases h
  cases h
  intro c hc
  split at hc
  -- A point follows the first digits, and maybe more digits follow the point.
  · split at hc
    · exact isClockChar_of_takeWhile hc
    rcases List.mem_append.1 hc with hc | hc
    · exact isClockChar_of_takeWhile hc
    rcases List.mem_cons.1 hc with rfl | hc
    · exact .inr rfl
    · exact isClockChar_of_takeWhile hc
  · exact isClockChar_of_takeWhile hc

theorem exists_of_clock? (h : clock? cs = some clock) :
    ∃ r, secondDigits? r = some clock.seconds.toList := by
  rw [clock?] at h
  obtain ⟨⟨hours, r⟩, _, h⟩ := Option.bind_eq_some_iff.1 h
  obtain ⟨⟨minutes, r⟩, _, h⟩ := Option.bind_eq_some_iff.1 h
  obtain ⟨seconds, hseconds, h⟩ := Option.bind_eq_some_iff.1 h
  cases h
  exact ⟨r, by rw [hseconds, String.toList_ofList]⟩

theorem exists_of_findClock? (h : findClock? cs = some clock) :
    ∃ r, clock? r = some clock := by
  induction cs with
  | nil => cases h
  | cons c cs ih =>
      rw [findClock?] at h
      split at h
      · next hhere =>
          rw [h] at hhere
          split at hhere
          · exact ⟨_, hhere⟩
          · cases hhere
      · exact ih h

/-- The seconds of a clock time that is found are a number, if an infinite one. -/
theorem isNaN_seconds (h : findClock? cs = some clock) :
    ((number? clock.seconds).getD 0).isNaN = false := by
  obtain ⟨r, hr⟩ := exists_of_findClock? h
  obtain ⟨r, hr⟩ := exists_of_clock? hr
  cases hnumber : number? clock.seconds with
  | none =>
      rw [Option.getD_none, Binary64.zero_eq]
      rfl
  | some x => exact isNaN_of_number? (isClockChar_of_secondDigits? hr) hnumber

end ClockTimes

/-! ## Blocks -/

theorem wholePart_ne_tooLarge (text : String) :
    wholePart text ≠ .error .tooLarge := by
  rw [wholePart]
  split <;> nofun

namespace Block

/-- A block without a count, but with a clock time, and its hours and minutes. -/
structure Clocked (fields : Fields) (clock : Clock) (hours minutes : Int) :
    Prop where
  microseconds : fields.lookup "out_time_us" = none
  milliseconds : fields.lookup "out_time_ms" = none
  found : ∃ text, fields.lookup "out_time" = some text ∧
    findClock? ("time=" ++ text).toList = some clock
  hours : wholePart clock.hours = .ok hours
  minutes : wholePart clock.minutes = .ok minutes

/-- When a block holds a number that is too large for arithmetic: a count of
milliseconds that has to be compared with the total, the hours and minutes of a
clock time, or all of its milliseconds. -/
inductive OutOfRange (fields : Fields) (total : Option Binary64) : Prop
  | count {text : String} {n : Int} {seconds : Binary64}
      (hcount : (fields.lookup "out_time_us").or (fields.lookup "out_time_ms") =
        some text)
      (hn : Decimal.wholeNumber text = .ok n) (htotal : total = some seconds)
      (hpositive : 0 < seconds)
      (hlarge : Binary64.beyond ≤ (n.fdiv 1000).natAbs) :
      OutOfRange fields total
  | minutes {clock : Clock} {hours minutes : Int}
      (hclock : Clocked fields clock hours minutes)
      (hlarge : Binary64.beyond ≤ (hours * 3600 + minutes * 60).natAbs) :
      OutOfRange fields total
  | seconds {clock : Clock} {hours minutes : Int} {x : Binary64}
      (hclock : Clocked fields clock hours minutes)
      (hx : Binary64.ofInt? (hours * 3600 + minutes * 60) = some x)
      (hlarge : ((x + (number? clock.seconds).getD 0) * 1000).truncate =
        .error .infinite) :
      OutOfRange fields total

section Faults

variable {fields : Fields} {total : Option Binary64} {text : String}

theorem whole_ne_tooLarge (text : String) : whole text ≠ .error .tooLarge := by
  rw [whole]
  intro h
  cases hn : wholeNumber text <;> rw [hn] at h <;> cases h

theorem real_ne_tooLarge (text : String) : real text ≠ .error .tooLarge := by
  rw [real]
  split <;> nofun

theorem whole_eq_ok_iff {n : Int} :
    whole text = .ok n ↔ wholeNumber text = .ok n := by
  rw [whole]
  cases wholeNumber text with
  | error e => constructor <;> intro h <;> cases h
  | ok m => constructor <;> intro h <;> cases h <;> rfl

/-- The milliseconds are those of a count, those of a clock time, or none. -/
theorem written_cases (fields : Fields) :
    (∃ text, (fields.lookup "out_time_us").or (fields.lookup "out_time_ms") =
        some text ∧
      written fields = whole text >>= fun n => pure (n.fdiv 1000)) ∨
    (fields.lookup "out_time_us" = none ∧ fields.lookup "out_time_ms" = none ∧
      ((∃ text, fields.lookup "out_time" = some text ∧
        written fields = clockMilliseconds text) ∨
        fields.lookup "out_time" = none ∧
          written fields = .error .unusable)) := by
  rw [written]
  cases hus : fields.lookup "out_time_us" with
  | some text => exact .inl ⟨text, rfl, rfl⟩
  | none =>
      cases hms : fields.lookup "out_time_ms" with
      | some text => exact .inl ⟨text, rfl, rfl⟩
      | none =>
          refine .inr ⟨rfl, rfl, ?_⟩
          cases fields.lookup "out_time" with
          | some text => exact .inl ⟨text, rfl, rfl⟩
          | none => exact .inr ⟨rfl, rfl⟩

theorem toSeconds_eq {clock : Clock} {hours minutes : Int}
    {near : Option Binary64}
    (hhours : wholePart clock.hours = .ok hours)
    (hminutes : wholePart clock.minutes = .ok minutes)
    (hnear : Binary64.ofInt? (hours * 3600 + minutes * 60) = near) :
    clock.toSeconds = match near with
      | some x => .ok (x + (number? clock.seconds).getD 0)
      | none => .error .tooLarge := by
  rw [Clock.toSeconds, hhours, ok_bind, hminutes, ok_bind]
  cases near with
  | none =>
      simp only [hnear]
      rfl
  | some x =>
      simp only [hnear]
      rfl

theorem percent_tooLarge_iff {milliseconds : Int} :
    percent milliseconds total = .error .tooLarge ↔
      ∃ seconds, total = some seconds ∧
      0 < seconds ∧ Binary64.beyond ≤ milliseconds.natAbs := by
  rw [← Binary64.ofInt?_eq_none_iff]
  cases total with
  | none => exact ⟨nofun, fun ⟨_, h, _⟩ => nomatch h⟩
  | some seconds =>
      rw [percent]
      by_cases hpositive : 0 < seconds
      · rw [if_pos hpositive]
        cases hnear : Binary64.ofInt? milliseconds with
        | none => exact ⟨fun _ => ⟨seconds, rfl, hpositive, rfl⟩, fun _ => rfl⟩
        | some x => exact ⟨nofun, fun ⟨_, _, _, h⟩ => nomatch h⟩
      · rw [if_neg hpositive]
        refine ⟨nofun, ?_⟩
        rintro ⟨_, h, hpos, _⟩
        cases h
        exact absurd hpos hpositive

theorem clockTime_some {line : String} {clock : Clock}
    (h : findClock? line.toList = some clock) :
    clockTime line = some <$> clock.toSeconds := by
  rw [clockTime, h]
  rfl

/-- A clock time has hours and minutes that can be read, or the
block is of no use. -/
theorem clockMilliseconds_cases (text : String) :
    clockMilliseconds text = .error .unusable ∨
    ∃ clock hours minutes, findClock? ("time=" ++ text).toList = some clock ∧
      wholePart clock.hours = .ok hours ∧
        wholePart clock.minutes = .ok minutes := by
  rw [clockMilliseconds]
  cases hfind : findClock? ("time=" ++ text).toList with
  | none =>
      have hnone : clockTime ("time=" ++ text) = .ok none := by
        rw [clockTime, hfind]
        rfl
      exact .inl (by rw [hnone])
  | some clock =>
      rw [clockTime_some hfind, Clock.toSeconds]
      cases hhours : wholePart clock.hours with
      | error fault =>
          cases fault with
          | tooLong digits => exact .inl rfl
          | tooLarge => exact absurd hhours (wholePart_ne_tooLarge _)
      | ok hours =>
          cases hminutes : wholePart clock.minutes with
          | error fault =>
              cases fault with
              | tooLong digits => exact .inl rfl
              | tooLarge => exact absurd hminutes (wholePart_ne_tooLarge _)
          | ok minutes =>
              exact .inr ⟨clock, hours, minutes, rfl, hhours, hminutes⟩

theorem clockMilliseconds_eq {clock : Clock} {hours minutes : Int}
    {near : Option Binary64}
    (hfind : findClock? ("time=" ++ text).toList = some clock)
    (hhours : wholePart clock.hours = .ok hours)
    (hminutes : wholePart clock.minutes = .ok minutes)
    (hnear : Binary64.ofInt? (hours * 3600 + minutes * 60) = near) :
    clockMilliseconds text = match near with
      | some x => ((x + (number? clock.seconds).getD 0) * 1000).truncate.mapError
          fun _ => .tooLarge
      | none => .error .tooLarge := by
  rw [clockMilliseconds, clockTime_some hfind, toSeconds_eq hhours hminutes hnear]
  cases near <;> rfl

/-- What a clock time comes to, in seconds and then in
milliseconds, is a number. -/
theorem isNaN_milliseconds {cs : List Char} {clock : Clock} {n : Int}
    {x : Binary64} (hfind : findClock? cs = some clock)
    (hx : Binary64.ofInt? n = some x) :
    ((x + (number? clock.seconds).getD 0) * 1000).isNaN = false :=
  Binary64.isNaN_mul
    (Binary64.isNaN_add_left (Binary64.isFinite_of_ofInt? hx) (isNaN_seconds hfind))
    (by decide +kernel) (by decide +kernel)

theorem truncate_of_isNaN {x : Binary64} (h : x.isNaN = false) :
    x.truncate = .error .infinite ∨ ∃ n, x.truncate = .ok n := by
  cases x with
  | finite s q hq => exact .inr ⟨_, rfl⟩
  | infinite s => exact .inl rfl
  | nan => cases h

theorem written_eq_of_clock (hus : fields.lookup "out_time_us" = none)
    (hms : fields.lookup "out_time_ms" = none)
    (htext : fields.lookup "out_time" = some text) :
    written fields = clockMilliseconds text := by
  rw [written, hus, hms, htext]

/-- The milliseconds themselves are out of range only when they are
those of a clock time. -/
theorem written_tooLarge_iff : written fields = .error .tooLarge ↔
    ∃ clock hours minutes, Clocked fields clock hours minutes ∧
      (Binary64.beyond ≤ (hours * 3600 + minutes * 60).natAbs ∨
        ∃ x, Binary64.ofInt? (hours * 3600 + minutes * 60) = some x ∧
          ((x + (number? clock.seconds).getD 0) * 1000).truncate =
            .error .infinite) := by
  constructor
  · intro h
    rcases written_cases fields with ⟨text, _, hcount⟩ | ⟨hus, hms, hclock⟩
    · rw [hcount, bind_eq_error_iff] at h
      rcases h with h | ⟨n, _, h⟩
      · exact absurd h (whole_ne_tooLarge text)
      · cases h
    rcases hclock with ⟨text, htext, hclock⟩ | ⟨_, hnone⟩
    · rw [hclock] at h
      rcases clockMilliseconds_cases text with
        hbad | ⟨clock, hours, minutes, hfind, hh, hm⟩
      · cases hbad.symm.trans h
      refine ⟨clock, hours, minutes, ⟨hus, hms, ⟨text, htext, hfind⟩, hh, hm⟩, ?_⟩
      rw [← Binary64.ofInt?_eq_none_iff]
      cases hx : Binary64.ofInt? (hours * 3600 + minutes * 60) with
      | none => exact .inl rfl
      | some x =>
          refine .inr ⟨x, rfl, ?_⟩
          rw [clockMilliseconds_eq hfind hh hm hx] at h
          dsimp only at h
          rcases truncate_of_isNaN (isNaN_milliseconds hfind hx) with
            hlarge | ⟨n, hn⟩
          · exact hlarge
          · rw [hn] at h
            cases h
    · cases hnone.symm.trans h
  · rintro ⟨clock, hours, minutes, ⟨hus, hms, ⟨text, htext, hfind⟩, hh, hm⟩, hlarge⟩
    rw [written_eq_of_clock hus hms htext]
    rw [← Binary64.ofInt?_eq_none_iff] at hlarge
    rcases hlarge with hnone | ⟨x, hx, hlarge⟩
    · exact clockMilliseconds_eq hfind hh hm hnone
    · rw [clockMilliseconds_eq hfind hh hm hx]
      dsimp only
      rw [hlarge]
      rfl

/-- Milliseconds that are out of range for a comparison are those of a count. -/
theorem exists_count_of_beyond {n : Int} (h : written fields = .ok n)
    (hlarge : Binary64.beyond ≤ n.natAbs) :
    ∃ text count, (fields.lookup "out_time_us").or
      (fields.lookup "out_time_ms") = some text ∧
      wholeNumber text = .ok count ∧ n = count.fdiv 1000 := by
  rcases written_cases fields with ⟨text, htext, hcount⟩ | ⟨hus, hms, hclock⟩
  · rw [hcount] at h
    cases hwhole : whole text with
    | error fault =>
        rw [hwhole] at h
        cases h
    | ok count =>
        rw [hwhole] at h
        cases h
        exact ⟨text, count, htext, whole_eq_ok_iff.1 hwhole, rfl⟩
  exfalso
  rcases hclock with ⟨text, htext, hclock⟩ | ⟨_, hnone⟩
  · rw [hclock] at h
    rcases clockMilliseconds_cases text with
      hbad | ⟨clock, hours, minutes, hfind, hh, hm⟩
    · cases hbad.symm.trans h
    cases hx : Binary64.ofInt? (hours * 3600 + minutes * 60) with
    | none =>
        rw [clockMilliseconds_eq hfind hh hm hx] at h
        cases h
    | some x =>
        rw [clockMilliseconds_eq hfind hh hm hx] at h
        dsimp only at h
        cases htruncate :
          ((x + (number? clock.seconds).getD 0) * 1000).truncate with
        | error why =>
            rw [htruncate] at h
            cases h
        | ok m =>
            rw [htruncate] at h
            cases h
            exact Nat.not_le.2 (Binary64.natAbs_truncate_lt htruncate) hlarge
  · cases hnone.symm.trans h

theorem written_of_count {n : Int}
    (htext : (fields.lookup "out_time_us").or (fields.lookup "out_time_ms") =
      some text)
    (hn : wholeNumber text = .ok n) : written fields = .ok (n.fdiv 1000) := by
  rcases written_cases fields with ⟨text', htext', hcount⟩ | ⟨hus, hms, _⟩
  · cases htext.symm.trans htext'
    rw [hcount, whole_eq_ok_iff.2 hn]
    rfl
  · rw [hus, hms] at htext
    cases htext

end Faults

end Block

section Settling

variable {fields : Fields} {total : Option Binary64}

theorem Block.mapM_ne_tooLarge {α : Type} {read : String → Except BlockFault α}
    (h : ∀ text, read text ≠ .error .tooLarge) (text : Option String) :
    text.mapM read ≠ .error .tooLarge := by
  cases text with
  | none => nofun
  | some text =>
      intro hmap
      change some <$> read text = _ at hmap
      cases hread : read text with
      | error fault =>
          rw [hread] at hmap
          cases hmap
          exact h text hread
      | ok a =>
          rw [hread] at hmap
          cases hmap

theorem Block.speed_ne_tooLarge (fields : Fields) :
    Block.speed fields ≠ .error .tooLarge := by
  rw [Block.speed]
  split
  · nofun
  · exact Block.mapM_ne_tooLarge Block.real_ne_tooLarge (some _)

/-- After the milliseconds and the percentage nothing of a block
is out of range. -/
theorem Progress.ofFields_tooLarge_iff :
    ofFields fields total = .error .tooLarge ↔
    Block.written fields = .error .tooLarge ∨
      ∃ n, Block.written fields = .ok n ∧
        Block.percent n total = .error .tooLarge := by
  rw [ofFields, bind_eq_error_iff]
  refine or_congr_right (exists_congr fun n => and_congr_right fun _ => ?_)
  rw [bind_eq_error_iff, or_iff_left]
  rintro ⟨percent, _, h⟩
  rcases bind_eq_error_iff.1 h with h | ⟨speed, _, h⟩
  · exact Block.speed_ne_tooLarge fields h
  rcases bind_eq_error_iff.1 h with h | ⟨frame, _, h⟩
  · exact Block.mapM_ne_tooLarge Block.whole_ne_tooLarge _ h
  rcases bind_eq_error_iff.1 h with h | ⟨frameRate, _, h⟩
  · exact Block.mapM_ne_tooLarge Block.real_ne_tooLarge _ h
  · cases h

theorem Block.percent_bounds {milliseconds : Int} {x : Binary64}
    (h : Block.percent milliseconds total = .ok (some x)) : 0 ≤ x ∧ x ≤ 100 := by
  cases total with
  | none => cases h
  | some seconds =>
      rw [Block.percent] at h
      split at h
      · split at h
        · cases h
          exact Binary64.percent_bounds _
        · cases h
      · cases h

/-- A block is out of range, or it reports nothing, or a progress whose percentage
is one. -/
theorem Progress.ofFields_settles (fields : Fields) (total : Option Binary64) :
    (ofFields fields total = .error .tooLarge ↔ Block.OutOfRange fields total) ∧
      ∀ p, ofFields fields total = .ok p →
        ∀ x, p.percent = some x → 0 ≤ x ∧ x ≤ 100 := by
  constructor
  · rw [ofFields_tooLarge_iff, Block.written_tooLarge_iff]
    constructor
    · rintro (⟨clock, hours, minutes, hclock, hlarge | ⟨x, hx, hlarge⟩⟩ |
        ⟨n, hn, hlarge⟩)
      · exact .minutes hclock hlarge
      · exact .seconds hclock hx hlarge
      · obtain ⟨seconds, htotal, hpositive, hlarge⟩ :=
          Block.percent_tooLarge_iff.1 hlarge
        obtain ⟨text, count, htext, hcount, rfl⟩ :=
          Block.exists_count_of_beyond hn hlarge
        exact .count htext hcount htotal hpositive hlarge
    · rintro (⟨htext, hn, htotal, hpositive, hlarge⟩ | ⟨hclock, hlarge⟩ |
        ⟨hclock, hx, hlarge⟩)
      · exact .inr ⟨_, Block.written_of_count htext hn,
          Block.percent_tooLarge_iff.2 ⟨_, htotal, hpositive, hlarge⟩⟩
      · exact .inl ⟨_, _, _, hclock, .inl hlarge⟩
      · exact .inl ⟨_, _, _, hclock, .inr ⟨_, hx, hlarge⟩⟩
  · intro p hp x hx
    rw [ofFields] at hp
    obtain ⟨n, _, hp⟩ := bind_eq_ok_iff.1 hp
    obtain ⟨percent, hpercent, hp⟩ := bind_eq_ok_iff.1 hp
    obtain ⟨_, _, hp⟩ := bind_eq_ok_iff.1 hp
    obtain ⟨_, _, hp⟩ := bind_eq_ok_iff.1 hp
    obtain ⟨_, _, hp⟩ := bind_eq_ok_iff.1 hp
    cases hp
    cases hx
    exact Block.percent_bounds hpercent

/-- One line with a count of 321 digits is enough. -/
theorem Progress.ofFields_countless_alone :
    ofFields [("out_time_us", String.ofList Runner.countless)] (some 10) =
      .error .tooLarge :=
  ofFields_tooLarge_iff.2 (.inr ⟨_,
    Block.written_of_count rfl Runner.wholeNumber_countless,
    Block.percent_tooLarge_iff.2 ⟨10, rfl, by decide +kernel, by decide +kernel⟩⟩)

end Settling

end Run

end Cutlist
