import Cutlist.Proofs.Constancy
import Cutlist.Proofs.SourceOrder
import Cutlist.Proofs.TempoFactors

/-!
# What it costs to merge cuts

A bound of an effect that is closer than `gap` to the cut before it is left out,
and a piece goes on there. Its speed and its zoom are those of the instant at
which it starts, and that instant is before the bound: an effect that begins
with the bound is not in force yet, and the piece does without it for as long as
it lasts. So what is lost is not the time between the two bounds but all of the
effect up to the next cut. Nothing is lost when no bound lies that close behind
the start of a piece; a bound close before the end of a range is left out as
well, but only the instants behind it are wrong then.

Instants are kept at a distance of a billionth of a second from all bounds, so
that none of them lies between bounds that are merged. `gap` is the number
nearest to that distance and not the distance itself, which is why the end of a
range needs a look of its own.
-/

namespace Cutlist

open Binary64 Timeline

/-- An instant of a range that is away from its ends and from all bounds. -/
structure Away (bounds : List Binary64) (r : Range) (t : ℝ) : Prop where
  begun : r.start.value + 1 / 10 ^ 9 ≤ t
  ahead : t + 1 / 10 ^ 9 ≤ r.stop.value
  far : ∀ b ∈ bounds, 1 / 10 ^ 9 ≤ |t - b.value|

/-- No bound lies closer than `gap` behind an instant. -/
def ClearBehind (bounds : List Binary64) (time : Binary64) : Prop :=
  ∀ b ∈ bounds, time.value < b.value → time.value + gap.value ≤ b.value

/-- The distance between cuts is less than two billionths of a second. -/
theorem Timeline.gap_lt : (gap.value : ℝ) < 2 / 10 ^ 9 := by
  have hticks : gap.ticks * 10 ^ 9 < 2 * unit := by decide +kernel
  have hunit : (0 : ℝ) < unit := by exact_mod_cast unit_pos
  rw [value, Rat.cast_div, Rat.cast_intCast, Rat.cast_natCast,
    div_lt_div_iff₀ hunit (by positivity)]
  exact_mod_cast hticks

theorem Away.contains {bounds : List Binary64} {r : Range} {t : ℝ}
    (h : Away bounds r t) : Contains r.start r.stop t := by
  have hpos : (0 : ℝ) < 1 / 10 ^ 9 := by positivity
  have hbegun := h.begun
  have hahead := h.ahead
  exact ⟨by linarith, by linarith⟩

theorem Binary64.real_value {x : Binary64} {n : Int} (h : x.ticks = n * unit) :
    (x.value : ℝ) = n := by
  rw [value_of_ticks h, Rat.cast_intCast]

/-- Only one can be the first. -/
theorem First.unique {α : Type} {holds : α → Prop} {xs : List α} {o o' : Option α}
    (h : First holds xs o) (h' : First holds xs o') : o = o' := by
  cases o with
  | none =>
      cases o' with
      | none => rfl
      | some y =>
          obtain ⟨before, after, rfl, hy, _⟩ := h'
          exact absurd hy (h y (by simp))
  | some x =>
      obtain ⟨before, after, rfl, hx, hbefore⟩ := h
      cases o' with
      | none => exact absurd hx (h' x (by simp))
      | some y =>
          obtain ⟨before', after', heq, hy, hbefore'⟩ := h'
          rcases List.append_eq_append_iff.1 heq with
            ⟨more, rfl, hmore⟩ | ⟨more, rfl, hmore⟩
          · cases more with
            | nil => rw [(List.cons.inj hmore).1]
            | cons z more =>
                obtain rfl := (List.cons.inj hmore).1
                exact absurd hx (hbefore' x (by simp))
          · cases more with
            | nil => rw [(List.cons.inj hmore).1]
            | cons z more =>
                obtain rfl := (List.cons.inj hmore).1
                exact absurd hy (hbefore y (by simp))

/-- There is one speed at an instant. -/
theorem Edits.SpeedIs.unique {e : Edits} {t : ℝ} {a b : Binary64}
    (ha : e.SpeedIs t a) (hb : e.SpeedIs t b) : a = b := by
  obtain ⟨found, hfound, rfl⟩ := ha
  obtain ⟨found', hfound', rfl⟩ := hb
  rw [hfound.unique hfound']

/-- An instant of a range that is tiled is in one of its parts. -/
theorem Tiles.exists_contains {r : Range} {parts : List Range} (h : Tiles r parts)
    {t : ℝ} (ht : Contains r.start r.stop t) :
    ∃ part ∈ parts, Contains part.start part.stop t := by
  induction h with
  | @whole r _ => exact ⟨r, List.mem_singleton.2 rfl, ht⟩
  | @cut r c parts _ _ ih =>
      rcases lt_or_ge t c.value with hbefore | hafter
      · exact ⟨⟨r.start, c⟩, List.mem_cons_self .., ht.1, hbefore⟩
      · obtain ⟨part, hpart, hcontains⟩ := ih ⟨hafter, ht.2⟩
        exact ⟨part, List.mem_cons_of_mem _ hpart, hcontains⟩

/-- Ranges that are apart have no instant in common. -/
theorem Range.Apart.not_contains {a b : Range} (h : a.Apart b) {t : ℝ}
    (ha : Contains a.start a.stop t) : ¬ Contains b.start b.stop t := by
  intro hb
  rcases h with hab | hba
  · have hab' : (a.stop.value : ℝ) ≤ b.start.value := Rat.cast_le.2 hab
    linarith [ha.2, hb.1]
  · have hba' : (b.stop.value : ℝ) ≤ a.start.value := Rat.cast_le.2 hba
    linarith [ha.1, hb.2]

namespace Project

variable {p : Project} {r : Range} {q : Piece} {t : ℝ}

/-- Where pieces do not overlap, one of them at most is shown at an instant. -/
theorem eq_of_contains (h : p.HasFiniteTimes) (hne : p.cutRanges ≠ [])
    (happart : p.shown.Pairwise Range.Apart) {q' : Piece} (hq : q ∈ p.pieces)
    (hq' : q' ∈ p.pieces) (ht : Contains q.start q.stop t)
    (ht' : Contains q'.start q'.stop t) : q' = q := by
  have hpairs : p.pieces.Pairwise fun a b => a.range.Apart b.range :=
    List.pairwise_map.1 ((pieces_precede h hne happart).imp .inl)
  have : Std.Symm fun a b : Piece => a.range.Apart b.range :=
    ⟨fun _ _ hab => hab.symm⟩
  by_contra hother
  exact (hpairs.forall hq' hq hother).not_contains ht' ht

/-- Behind the start of a piece nothing begins or ends before an instant that is
away from all bounds, if nothing does so at once. -/
theorem settled_of_clear (h : p.HasFiniteTimes) (hr : r ∈ p.cutRanges)
    (hq : q ∈ p.edits.piecesOf r) (ht : Contains q.start q.stop t)
    (haway : Away p.edits.bounds r t)
    (hclear : ClearBehind p.edits.bounds q.start) :
    Settled p.edits.bounds q.start t := by
  obtain ⟨hmem, hlt⟩ := (mem_cutRanges h).1 hr
  have hpart := Edits.range_mem_between hq
  refine ⟨ht.1, fun b hb hlater => ?_⟩
  by_contra hnot
  have hpassed : (b.value : ℝ) ≤ t := le_of_not_gt hnot
  have hinside : b.value < q.stop.value :=
    Rat.cast_lt.1 (lt_of_le_of_lt hpassed ht.2)
  rcases near_of_inside h.allFinite_bounds (h.ranges r hmem)
    (value_lt_value.1 hlt) hpart hb (value_lt_value.1 hinside) with hstart | hstop
  · have hclose : b.value < q.start.value + gap.value := value_lt_add.2 hstart
    exact absurd (hclear b hb hlater) (not_le_of_gt hclose)
  · -- Twice the distance fits between the bound and the end.
    have hclose : (r.stop.value : ℝ) < b.value + gap.value := by
      exact_mod_cast value_lt_add.2 hstop
    have hgap := gap_lt
    have hfar := haway.far b hb
    have hahead := haway.ahead
    rw [abs_of_nonneg (by linarith)] at hfar
    linarith

/-- An instant away from all bounds is in one piece of the export, which has the
speed and the zoom of the instant at which it starts. They are those of the
instant itself if no bound was left out just behind that start. -/
theorem merged_cuts (p : Project) (h : p.HasFiniteTimes)
    (happart : p.shown.Pairwise Range.Apart) (r : Range) (hr : r ∈ p.shown)
    (t : ℝ) (haway : Away p.edits.bounds r t) :
    ∃ q ∈ p.pieces, Contains q.start q.stop t ∧
      (∀ q' ∈ p.pieces, Contains q'.start q'.stop t → q' = q) ∧
      p.edits.SpeedIs q.start.value q.speed ∧
      p.edits.ZoomIs q.start.value q.zoom ∧
      (ClearBehind p.edits.bounds q.start →
        p.edits.SpeedIs t q.speed ∧ p.edits.ZoomIs t q.zoom) := by
  have hcut := mem_cutRanges_of_shown h hr
  have hb := h.allFinite_bounds
  obtain ⟨part, hpart, ht⟩ :=
    (tiles_piecesOf h hcut).exists_contains haway.contains
  obtain ⟨q, hq, rfl⟩ := List.mem_map.1 hpart
  have hmem := mem_pieces h hcut hq
  refine ⟨q, hmem, ht, fun q' hq' ht' =>
    eq_of_contains h (List.ne_nil_of_mem hcut) happart hmem hq' ht ht', ?_⟩
  have hsettled := settled_of_clear h hcut hq ht haway
  obtain ⟨start, hstart, rfl⟩ := List.mem_map.1 hq
  have hfinite := allFinite_cuts hb (h.ranges r ((mem_cutRanges h).1 hcut).1) _
    (mem_of_mem_between hstart).1
  exact ⟨Edits.speedIs_settled hb hfinite (.refl _ _),
    Edits.zoomIs_settled hb hfinite (.refl _ _), fun hclear =>
      ⟨Edits.speedIs_settled hb hfinite (hsettled hclear),
        Edits.zoomIs_settled hb hfinite (hsettled hclear)⟩⟩

/-- A recording that is shown at double speed from second 2 to second 4. -/
def doubled : Project :=
  screenOnly 10 [⟨.null, 0, 10, true⟩] [⟨.null, 2, 4, 2⟩]

theorem doubled_hasFiniteTimes : doubled.HasFiniteTimes := by
  refine screenOnly_hasFiniteTimes (by decide +kernel) ?_ ?_
  · simp only [List.forall_mem_cons]
    decide +kernel
  · simp only [List.forall_mem_cons]
    decide +kernel

theorem shown_doubled : (⟨0, 10⟩ : Range) ∈ doubled.shown :=
  List.mem_filter.2
    ⟨by decide +kernel, decide_eq_true (value_lt_value.2 (by decide +kernel))⟩

theorem pieces_doubled : doubled.pieces =
    [⟨0, 2, 1, none⟩, ⟨2, 4, 2, none⟩, ⟨4, 10, 1, none⟩] := by
  have hranges : doubled.ranges = [⟨0, 10⟩] :=
    Range.sort_of_sorted (by decide +kernel) (List.pairwise_singleton _ _)
  rw [pieces, cutPieces, hranges, Edits.piecesOf_of_sorted (by decide +kernel)]
  decide +kernel

/-- Second 3 is shown at the speed that it has. -/
theorem merged_cuts_doubled : doubled.HasFiniteTimes ∧
    doubled.shown.Pairwise Range.Apart ∧ Away doubled.edits.bounds ⟨0, 10⟩ 3 ∧
    ∃ q ∈ doubled.pieces, Contains q.start q.stop 3 ∧
      doubled.edits.SpeedIs 3 q.speed := by
  have hapart : doubled.shown.Pairwise Range.Apart := by decide +kernel
  have haway : Away doubled.edits.bounds ⟨0, 10⟩ 3 := by
    refine ⟨?_, ?_, ?_⟩
    · rw [real_value (n := 0) (by decide +kernel)]
      norm_num
    · rw [real_value (n := 10) (by decide +kernel)]
      norm_num
    · intro b hb
      rcases List.mem_cons.1 hb with rfl | hb
      · rw [real_value (n := 2) (by decide +kernel)]
        norm_num
      · obtain rfl := List.mem_singleton.1 hb
        rw [real_value (n := 4) (by decide +kernel)]
        norm_num [abs_of_neg]
  obtain ⟨q, hq, ht, _, _, _, hsample⟩ := merged_cuts doubled
    doubled_hasFiniteTimes hapart ⟨0, 10⟩ shown_doubled 3 haway
  have hclear : ∀ q ∈ doubled.pieces,
      ClearBehind doubled.edits.bounds q.start := by
    rw [pieces_doubled]
    unfold ClearBehind
    decide +kernel
  exact ⟨doubled_hasFiniteTimes, hapart, haway, q, hq, ht,
    (hsample (hclear q hq)).1⟩

/-- A recording of which a part is shown from second 0.3 on, at double speed from
the next number on until second 5. -/
def hardlyLater : Project :=
  screenOnly 10 [⟨.null, 0.3, 10, true⟩] [⟨.null, 0.30000000000000004, 5, 2⟩]

theorem hardlyLater_hasFiniteTimes : hardlyLater.HasFiniteTimes := by
  refine screenOnly_hasFiniteTimes (by decide +kernel) ?_ ?_
  · simp only [List.forall_mem_cons]
    decide +kernel
  · simp only [List.forall_mem_cons]
    decide +kernel

theorem pieces_hardlyLater :
    hardlyLater.pieces = [⟨0.3, 5, 1, none⟩, ⟨5, 10, 1, none⟩] := by
  have hranges : hardlyLater.ranges = [⟨0.3, 10⟩] :=
    Range.sort_of_sorted (by decide +kernel) (List.pairwise_singleton _ _)
  rw [pieces, cutPieces, hranges, Edits.piecesOf_of_sorted (by decide +kernel)]
  decide +kernel

/-- Second 2 is away from everything, and is not shown at the speed it has there:
the piece that shows it starts before its change of speed. -/
theorem speed_lost_hardlyLater : hardlyLater.HasFiniteTimes ∧
    hardlyLater.shown.Pairwise Range.Apart ∧
    ∃ r ∈ hardlyLater.shown, Away hardlyLater.edits.bounds r 2 ∧
      hardlyLater.edits.SpeedIs 2 2 ∧
      ∀ q ∈ hardlyLater.pieces, Contains q.start q.stop 2 →
        ¬ hardlyLater.edits.SpeedIs 2 q.speed := by
  have early {x : Binary64} (hx : x.ticks ≤ (1 : Binary64).ticks) :
      (x.value : ℝ) ≤ 1 := by
    have hvalue := value_le_value.2 hx
    rw [value_one] at hvalue
    exact_mod_cast hvalue
  have hlow : ((0.3 : Binary64).value : ℝ) ≤ 1 := early (by decide +kernel)
  have hbegin : ((0.30000000000000004 : Binary64).value : ℝ) ≤ 1 :=
    early (by decide +kernel)
  have hend := real_value (x := 5) (n := 5) (by decide +kernel)
  have hstop := real_value (x := 10) (n := 10) (by decide +kernel)
  have hspeed : hardlyLater.edits.SpeedIs 2 2 := by
    refine ⟨some ⟨.null, 0.30000000000000004, 5, 2⟩,
      ⟨[], [], rfl, ⟨?_, ?_⟩, ?_⟩, rfl⟩
    · exact hbegin.trans (by norm_num)
    · rw [hend]
      norm_num
    · exact fun _ h => nomatch h
  refine ⟨hardlyLater_hasFiniteTimes, by decide +kernel, ⟨0.3, 10⟩, ?_, ⟨?_, ?_, ?_⟩,
    hspeed, ?_⟩
  · exact List.mem_filter.2
      ⟨by decide +kernel, decide_eq_true (value_lt_value.2 (by decide +kernel))⟩
  · dsimp only
    linarith
  · rw [hstop]
    norm_num
  · intro b hb
    rcases List.mem_cons.1 hb with rfl | hb
    · rw [abs_of_nonneg (by linarith)]
      linarith
    · obtain rfl := List.mem_singleton.1 hb
      rw [hend]
      norm_num
  · rw [pieces_hardlyLater]
    intro q hq ht hsame
    rcases List.mem_cons.1 hq with rfl | hq
    · have : (2 : Binary64) = 1 := hspeed.unique hsame
      exact absurd this (by decide +kernel)
    · obtain rfl := List.mem_singleton.1 hq
      have := ht.1
      rw [hend] at this
      norm_num at this

end Project

end Cutlist
