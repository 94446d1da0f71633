import Cutlist.Timestamp.Reader
import Cutlist.Proofs.FixedPlaces

/-!
# A timestamp reads back as it was written

A timestamp is written in one of the many forms that are read: hyphens in the
date, colons in the time, a fraction of six digits or none. What is read then
are the parts that were written, except for the distance from universal time.
It is written to the microsecond, but less than a second of it is read as none.
No text gives a timestamp such a distance, so what was read once reads back.
-/

namespace Cutlist.Timestamp

open Decimal

/-- The distance from universal time is none or at least a second. -/
def ReadsBack (t : Timestamp) : Prop :=
  t.offset = 0 ∨ 1000000 ≤ t.offset.natAbs

/-! ## The characters of a timestamp -/

/-- A character of a time of day. -/
def isClock (c : Char) : Bool := c.isDigit || c == ':' || c == '.'

theorem isClock_of_mem_padded {width n : Nat} {c : Char}
    (h : c ∈ padded width n) : isClock c = true := by
  rw [isClock, isDigit_of_mem_padded h, Bool.true_or, Bool.true_or]

theorem isClock_of_mem_microText {micro : Nat} {c : Char}
    (h : c ∈ microText micro) : isClock c = true := by
  rw [microText] at h
  split at h
  · cases h
  · rcases List.mem_cons.1 h with rfl | h
    · rfl
    · exact isClock_of_mem_padded h

/-- A time of day with all its parts. -/
def clockText (hour minute second micro : Nat) : List Char :=
  padded 2 hour ++ ':' :: (padded 2 minute ++ ':' ::
    (padded 2 second ++ microText micro))

theorem isClock_of_mem_clockText {hour minute second micro : Nat} {c : Char}
    (h : c ∈ clockText hour minute second micro) : isClock c = true := by
  simp only [clockText, List.mem_append, List.mem_cons] at h
  rcases h with h | rfl | h | rfl | h | h
  · exact isClock_of_mem_padded h
  · rfl
  · exact isClock_of_mem_padded h
  · rfl
  · exact isClock_of_mem_padded h
  · exact isClock_of_mem_microText h

/-- The distance from universal time after its sign. -/
def zoneText (n : Nat) : List Char :=
  padded 2 (n / 1000000 / 3600) ++ ':' ::
    (padded 2 (n / 1000000 / 60 % 60) ++
      (if n / 1000000 % 60 = 0 ∧ n % 1000000 = 0 then []
        else ':' :: (padded 2 (n / 1000000 % 60) ++ microText (n % 1000000))))

theorem isClock_of_mem_zoneText {n : Nat} {c : Char} (h : c ∈ zoneText n) :
    isClock c = true := by
  rw [zoneText] at h
  split at h
  · simp only [List.append_nil, List.mem_append, List.mem_cons] at h
    rcases h with h | rfl | h
    · exact isClock_of_mem_padded h
    · rfl
    · exact isClock_of_mem_padded h
  · exact isClock_of_mem_clockText h

theorem chars_eq (t : Timestamp) : t.chars =
    padded 4 t.year ++ '-' :: (padded 2 t.month ++ '-' :: (padded 2 t.day ++
      'T' :: (clockText t.hour t.minute t.second t.micro ++
        (if t.offset < 0 then '-' else '+') :: zoneText t.offset.natAbs))) := by
  simp [chars, offsetText, clockText, zoneText]

/-- No letter of a timestamp stands for universal time. -/
theorem spellZulu_chars (t : Timestamp) : spellZulu t.chars = t.chars := by
  have hclock : ∀ c, isClock c = true → c ≠ 'Z' := by
    rintro c hc rfl
    exact absurd hc (by decide)
  have hnone : ∀ c ∈ t.chars, c ≠ 'Z' := by
    intro c hc
    simp only [chars_eq, List.mem_append, List.mem_cons] at hc
    rcases hc with hc | rfl | hc | rfl | hc | rfl | hc | hc | hc
    · exact hclock c (isClock_of_mem_padded hc)
    · decide
    · exact hclock c (isClock_of_mem_padded hc)
    · decide
    · exact hclock c (isClock_of_mem_padded hc)
    · decide
    · exact hclock c (isClock_of_mem_clockText hc)
    · rw [hc]
      split <;> decide
    · exact hclock c (isClock_of_mem_zoneText hc)
  rw [spellZulu, List.flatMap_congr (g := fun c => [c])]
  · exact List.flatMap_singleton' _
  · intro c hc
    rw [if_neg]
    simpa using hnone c hc

theorem day_lt (t : Timestamp) : t.day < 100 := by
  have hmonth : Calendar.daysInMonth t.year t.month < 100 := by
    unfold Calendar.daysInMonth
    grind
  exact Nat.lt_of_le_of_lt t.inRange.day_le hmonth

/-! ## Reading what was written -/

namespace Reader

theorem digits?_append {ds : List Char} (hds : ∀ c ∈ ds, c.isDigit = true)
    (rest : List Char) :
    digits? ds.length (ds ++ rest) = some (value ds, rest) := by
  induction ds with
  | nil => rfl
  | cons c ds ih =>
      rw [List.length_cons, List.cons_append, digits?,
        if_pos (hds c List.mem_cons_self),
        ih fun d hd => hds d (List.mem_cons_of_mem _ hd), value_cons]
      rfl

theorem digits?_padded {width n : Nat} (hwidth : 0 < width)
    (h : n < 10 ^ width) (rest : List Char) :
    digits? width (padded width n ++ rest) = some (n, rest) := by
  have hdigits : ∀ c ∈ padded width n, c.isDigit = true :=
    fun c hc => isDigit_of_mem_padded hc
  have := digits?_append hdigits rest
  rwa [length_padded hwidth h, value_padded] at this

theorem fraction?_padded {micro : Nat} (h : micro < 1000000) :
    fraction? (padded 6 micro) = some (micro, []) := by
  have hlength : (padded 6 micro).length = 6 := length_padded (by decide) h
  have hdigits : digits? 6 (padded 6 micro ++ []) = some (micro, []) :=
    digits?_padded (by decide) h []
  rw [List.append_nil] at hdigits
  rw [fraction?, hlength]
  change (digits? 6 (padded 6 micro)).bind _ = _
  rw [hdigits]
  change some (micro * 1, []) = _
  rw [Nat.mul_one]

/-- A part with another after it. -/
theorem clockParts?_cons {colons : Bool} {parts : List Nat} {n : Nat}
    (hn : n < 100) (hcolons : colons = true ∨ parts = []) (count : Nat)
    {rest : List Char} (hrest : rest ≠ []) :
    clockParts? colons (count + 1) parts (padded 2 n ++ ':' :: rest) =
      clockParts? true count (parts ++ [n]) rest := by
  obtain ⟨c, rest, rfl⟩ := List.exists_cons_of_ne_nil hrest
  rw [clockParts?, digits?_padded (by decide) hn]
  change (if _ then _ else _) = _
  rw [if_pos]
  · rcases hcolons with rfl | rfl
    · simp
    · rfl
  · rcases hcolons with rfl | rfl
    · simp
    · rfl

/-- The last part, with a fraction or without. -/
theorem clockParts?_last (colons : Bool) (parts : List Nat) {n micro : Nat}
    (hn : n < 100) (hmicro : micro < 1000000) (count : Nat) :
    clockParts? colons (count + 1) parts (padded 2 n ++ microText micro) =
      some (parts ++ [n], micro, []) := by
  rw [clockParts?, digits?_padded (by decide) hn, microText]
  split
  · next hzero => rw [hzero]; rfl
  · obtain ⟨c, cs, hcs⟩ := List.exists_cons_of_length_pos
      (l := padded 6 micro) (by rw [length_padded (by decide) hmicro]; decide)
    have hfraction := fraction?_padded hmicro
    rw [hcs] at hfraction ⊢
    simp [hfraction]

theorem clock?_clockText {hour minute second micro : Nat} (hhour : hour < 100)
    (hminute : minute < 100) (hsecond : second < 100)
    (hmicro : micro < 1000000) :
    clock? (clockText hour minute second micro) =
      some (⟨hour, minute, second, micro⟩, []) := by
  have hnil : ∀ {n rest}, padded 2 n ++ rest ≠ [] := fun {n rest} h =>
    padded_ne_nil _ _ (List.append_eq_nil_iff.1 h).1
  rw [clock?, clockText, clockParts?_cons hhour (.inr rfl) 2 hnil,
    clockParts?_cons hminute (.inl rfl) 1 hnil,
    clockParts?_last true _ hsecond hmicro 0]
  rfl

theorem clock?_zoneText {n : Nat} (h : n < dayMicros) :
    ∃ zone, clock? (zoneText n) = some (zone, []) ∧ zone.micros = n := by
  have hdays : n / 1000000 / 3600 < 100 := by
    rw [dayMicros] at h
    omega
  have hminute : n / 1000000 / 60 % 60 < 100 := by omega
  have hsecond : n / 1000000 % 60 < 100 := by omega
  rw [zoneText]
  split
  · next hnone =>
      refine ⟨⟨n / 1000000 / 3600, n / 1000000 / 60 % 60, 0, 0⟩, ?_, ?_⟩
      · have hlast := clockParts?_last true [n / 1000000 / 3600] hminute
          (show 0 < 1000000 by decide) 1
        have hzero : microText 0 = [] := rfl
        rw [hzero] at hlast
        rw [clock?, clockParts?_cons hdays (.inr rfl) 2 (by
          rw [List.append_nil]; exact padded_ne_nil _ _)]
        change (clockParts? true 2 [n / 1000000 / 3600] _).bind _ = _
        rw [hlast]
        rfl
      · dsimp only [Clock.micros]
        omega
  · refine ⟨_, clock?_clockText hdays hminute hsecond (by omega), ?_⟩
    dsimp only [Clock.micros]
    omega

theorem time?_written {hour minute second micro : Nat} (hhour : hour < 100)
    (hminute : minute < 100) (hsecond : second < 100)
    (hmicro : micro < 1000000) {offset : Int}
    (hoffset : offset.natAbs < dayMicros)
    (hback : offset = 0 ∨ 1000000 ≤ offset.natAbs) :
    time? (clockText hour minute second micro ++
        (if offset < 0 then '-' else '+') :: zoneText offset.natAbs) =
      some (⟨hour, minute, second, micro⟩, offset) := by
  obtain ⟨zone, hzone, hmicros⟩ := clock?_zoneText hoffset
  have hclock : ∀ c ∈ clockText hour minute second micro,
      (!(c == '+' || c == '-')) = true := by
    intro c hc
    have := isClock_of_mem_clockText hc
    rw [Bool.not_eq_true', Bool.or_eq_false_iff, beq_eq_false_iff_ne,
      beq_eq_false_iff_ne]
    constructor <;> rintro rfl <;> exact absurd this (by decide)
  have htake : ∀ sign : Char, (!(sign == '+' || sign == '-')) = false →
      ∀ r, (clockText hour minute second micro ++ sign :: r).takeWhile
          (fun c => !(c == '+' || c == '-')) =
        clockText hour minute second micro ∧
      (clockText hour minute second micro ++ sign :: r).dropWhile
          (fun c => !(c == '+' || c == '-')) = sign :: r := by
    intro sign hsign r
    rw [List.takeWhile_append_of_pos hclock, List.dropWhile_append_of_pos hclock,
      List.takeWhile_cons_of_neg (by rw [hsign]; decide),
      List.dropWhile_cons_of_neg (by rw [hsign]; decide), List.append_nil]
    exact ⟨rfl, rfl⟩
  have hsize : ((if zone.micros < 1000000 then 0 else zone.micros : Int)) =
      offset.natAbs := by
    rw [hmicros]
    split
    · omega
    · rfl
  have hsplit := htake (if offset < 0 then '-' else '+')
    (by split <;> decide) (zoneText offset.natAbs)
  rw [time?]
  dsimp only
  rw [hsplit.1, hsplit.2, clock?_clockText hhour hminute hsecond hmicro]
  change (clock? (zoneText offset.natAbs)).bind _ = _
  rw [hzone]
  have hend : (!atEnd []) = false := rfl
  simp only [Option.bind_some, hend, Bool.false_eq_true, if_false, hsize]
  by_cases hneg : offset < 0
  · rw [if_pos hneg, if_pos (by decide)]
    congr 2
    omega
  · rw [if_neg hneg, if_neg (by decide)]
    congr 2
    omega

/-- A date with its hyphens, before anything. -/
theorem date?_written {year month day : Nat} (hyear : year < 10000)
    (hmonth : month < 100) (hday : day < 100) (rest : List Char) :
    date? (padded 4 year ++ '-' :: (padded 2 month ++ '-' ::
      (padded 2 day ++ rest))) = some ((year, month, day), rest) := by
  rw [date?, digits?_padded (by decide) hyear]
  obtain ⟨c, cs, hcs⟩ := List.exists_cons_of_ne_nil (padded_ne_nil 2 month)
  have hdigit : c.isDigit = true :=
    isDigit_of_mem_padded (show c ∈ padded 2 month by rw [hcs]; simp)
  have hweek : c ≠ 'W' := by
    rintro rfl
    exact absurd hdigit (by decide)
  have hread : digits? 2 (padded 2 month ++ '-' :: (padded 2 day ++ rest)) =
      some (month, '-' :: (padded 2 day ++ rest)) :=
    digits?_padded (by decide) hmonth _
  rw [hcs] at hread ⊢
  dsimp only [Option.bind_eq_bind, Option.bind_some]
  split
  · next heq =>
      injection heq with _ heq
      injection heq with heq
      exact absurd heq hweek
  · next heq =>
      injection heq with heq
      exact absurd heq (by decide)
  · next _ heq =>
      injection heq with _ heq
      subst heq
      rw [hread]
      change (digits? 2 (padded 2 day ++ rest)).bind _ = _
      rw [digits?_padded (by decide) hday]
      rfl
  · next hother => exact absurd rfl (hother _)

theorem parts?_chars {t : Timestamp} (h : t.ReadsBack) :
    parts? t.chars = some ((t.year, t.month, t.day),
      ⟨t.hour, t.minute, t.second, t.micro⟩, t.offset) := by
  have hrange := t.inRange
  rw [parts?, chars_eq, date?_written (Nat.lt_succ_of_le hrange.year_le)
    (Nat.lt_of_le_of_lt hrange.month_le (by decide)) t.day_lt]
  have htime := time?_written
    (Nat.lt_trans hrange.hour_lt (by decide))
    (Nat.lt_trans hrange.minute_lt (by decide))
    (Nat.lt_trans hrange.second_lt (by decide)) hrange.micro_lt
    hrange.offset_lt h
  dsimp only [Option.bind_eq_bind, Option.bind_some]
  rw [htime]
  rfl

end Reader

theorem ofParts_self (t : Timestamp) :
    ofParts (t.year, t.month, t.day) ⟨t.hour, t.minute, t.second, t.micro⟩
      t.offset = .ok t := by
  obtain ⟨h1, h2, h3, h4, h5, h6, h7, h8, h9, h10, h11⟩ := t.inRange
  simp [ofParts, *]

/-- What is written reads back. -/
theorem read_toText {t : Timestamp} (h : t.ReadsBack) :
    read t.toText = .ok t := by
  rw [read, toText, String.toList_ofList, spellZulu_chars, Reader.parts?_chars h]
  dsimp only
  rw [if_pos t.inRange.offset_lt, ofParts_self]

/-! ## What is read -/

theorem offset_of_time? {cs : List Char} {clock : Reader.Clock} {offset : Int}
    (h : Reader.time? cs = some (clock, offset)) :
    offset = 0 ∨ 1000000 ≤ offset.natAbs := by
  rw [Reader.time?] at h
  dsimp only at h
  obtain ⟨⟨c, left⟩, _, h⟩ := Option.bind_eq_some_iff.1 h
  dsimp only at h
  split at h
  · split at h
    · cases h
      exact .inl rfl
    · cases h
  · obtain ⟨⟨zone, left'⟩, _, h⟩ := Option.bind_eq_some_iff.1 h
    dsimp only at h
    split at h
    · cases h
    · cases h
      by_cases hsmall : zone.micros < 1000000
      · left
        rw [if_pos hsmall, Int.neg_zero, ite_self]
      · right
        rw [if_neg hsmall]
        split
        · rw [Int.natAbs_neg, Int.natAbs_natCast]
          exact Nat.not_lt.1 hsmall
        · rw [Int.natAbs_natCast]
          exact Nat.not_lt.1 hsmall

theorem offset_of_parts? {cs : List Char} {date : Nat × Nat × Nat}
    {clock : Reader.Clock} {offset : Int}
    (h : Reader.parts? cs = some (date, clock, offset)) :
    offset = 0 ∨ 1000000 ≤ offset.natAbs := by
  rw [Reader.parts?] at h
  obtain ⟨⟨date', rest⟩, _, h⟩ := Option.bind_eq_some_iff.1 h
  dsimp only at h
  split at h
  · cases h
    exact .inl rfl
  · obtain ⟨⟨clock', offset'⟩, htime, h⟩ := Option.bind_eq_some_iff.1 h
    cases h
    exact offset_of_time? htime

theorem offset_of_ofParts {date : Nat × Nat × Nat} {clock : Reader.Clock}
    {offset : Int} {t : Timestamp} (h : ofParts date clock offset = .ok t) :
    t.offset = offset := by
  obtain ⟨year, month, day⟩ := date
  rw [ofParts] at h
  repeat' split at h
  all_goals cases h
  rfl

/-- What is read reads back. -/
theorem readsBack_of_read {s : String} {t : Timestamp} (h : read s = .ok t) :
    t.ReadsBack := by
  rw [read] at h
  split at h
  · cases h
  · next heq =>
      split at h
      · rw [ReadsBack, offset_of_ofParts h]
        exact offset_of_parts? heq
      · cases h

end Cutlist.Timestamp
