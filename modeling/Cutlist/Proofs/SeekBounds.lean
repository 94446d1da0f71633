import Cutlist.Proofs.LooseEnds
import Cutlist.Proofs.PlainStretch

/-!
# Where a stretch is sought

An export that is one plain stretch of the recording seeks to the bounds of its
only enabled segment, as they are declared. It is planned when the segment
begins after 0 or ends before the recording does, so it is never all of the
recording. That is as much as the plan looks at: a segment that begins before 0
or ends behind the end of the recording is sought just the same, at the bounds
it has. What is sought is a strict part of the recording exactly when the
segment lies in it.

That it does not end before it begins needs no test of its own, as long as the
recording is not shorter than the tolerance allows for. Nothing is cut from a
segment that is turned round, all of the recording is the only piece instead,
and both bounds of the segment have to be close to those of the recording.
-/

namespace Cutlist

open FilterGraph Render Export Binary64 Timeline

/-- A range is a part of a recording that has a duration, and not all of it. -/
structure Range.StrictPart (r : Range) (duration : Binary64) : Prop where
  low : 0 ≤ r.start.value
  rising : r.start.value < r.stop.value
  high : r.stop.value ≤ duration.value
  part : ¬ (r.start.value = 0 ∧ r.stop.value = duration.value)

/-- Instants that count as equal differ by less than one and a half times the
tolerance. -/
theorem Timeline.near_of_not_lt {a b : Binary64} (ha : a.isFinite = true)
    (hb : b.isFinite = true) (h : ¬ timeTolerance < (a - b).abs) :
    a.ticks < b.ticks + (0.0015 : Binary64).ticks ∧
      b.ticks < a.ticks + (0.0015 : Binary64).ticks := by
  have hc : (0.0015 : Binary64).isFinite = true := by decide +kernel
  have hlarger : timeTolerance.ticks < (0.0015 : Binary64).ticks := by
    decide +kernel
  rw [lt_iff_ticks (isNaN_of_isFinite timeTolerance_finite)
    (by rw [isNaN_abs]; exact isNaN_sub ha hb), ticks_abs] at h
  constructor
  · by_contra hfar
    have := le_ticks_sub ha hb hc (by omega)
    omega
  · by_contra hfar
    have := ticks_sub_le (c := -0.0015) ha hb
      ((isFinite_neg (0.0015 : Binary64)).trans hc) (by rw [ticks_neg]; omega)
    rw [ticks_neg] at this
    omega

namespace Export

variable {p : Project} {r : Range}

/-- A plain stretch that is turned round is all of a very short recording. -/
theorem short_of_turned (h : p.HasFiniteTimes) (hranges : p.ranges = [r])
    (hplain : isEdited p.pieces r = false)
    (hturned : r.stop.value ≤ r.start.value) :
    p.duration.value < (0.003 : Binary64).value := by
  have hr := h.ranges r (by rw [hranges]; exact List.mem_singleton.2 rfl)
  have hnone : p.cutRanges = [] := by
    rw [List.eq_nil_iff_forall_not_mem]
    intro x hx
    obtain ⟨hmem, hforward⟩ := (Project.mem_cutRanges h).1 hx
    rw [hranges, List.mem_singleton] at hmem
    subst hmem
    exact absurd hforward (not_lt.2 hturned)
  have hpieces : p.pieces = [⟨0, p.duration, 1, none⟩] := by
    rw [Project.pieces,
      if_pos (List.isEmpty_iff.2 ((Project.cutPieces_eq_nil h).2 hnone))]
  obtain ⟨q, hq, hstart, hstop, _⟩ := of_not_edited hplain
  obtain rfl := List.singleton_inj.1 (hpieces.symm.trans hq)
  have hlow := (near_of_not_lt h.whole.1 hr.1 hstart).2
  have hhigh := (near_of_not_lt h.duration hr.2 hstop).1
  have hzero : p.whole.start.ticks = 0 :=
    (by decide +kernel : (0 : Binary64).ticks = 0)
  have hdouble : (0.003 : Binary64).ticks = 2 * (0.0015 : Binary64).ticks := by
    decide +kernel
  rw [value_le_value] at hturned
  rw [value_lt_value]
  omega

theorem part_of_stretch (h : p.HasFiniteTimes) (hr : r.IsFinite)
    (hpart : 0 < r.start ∨ r.stop < p.duration) :
    0 < r.start.value ∨ r.stop.value < p.duration.value := by
  rcases hpart with hpart | hpart
  · refine .inl ?_
    rw [← value_zero, value_lt_value]
    exact (lt_iff_ticks isNaN_zero (isNaN_of_isFinite hr.1)).1 hpart
  · refine .inr (value_lt_value.2 ?_)
    exact (lt_iff_ticks (isNaN_of_isFinite hr.2)
      (isNaN_of_isFinite h.duration)).1 hpart

/-- Nothing of a project that could fail is used in a plain stretch. -/
theorem Plan.writable_of_fast {screenHasAudio : Bool}
    (hfast : (Plan.ofProject p screenHasAudio).fast = true)
    (kind : Format.Kind) : p.Writable kind := by
  obtain ⟨hcamera, hmicrophone, r, _, hstretch⟩ := Plan.of_fast hfast
  obtain ⟨_, _, _, hannotations, _⟩ := of_isPlainStretch hstretch
  constructor
  · rw [hcamera]
    exact nofun
  · rw [hmicrophone]
    exact nofun
  · rw [hannotations]
    exact fun _ _ ha => nomatch ha
  · rw [hannotations]
    exact fun _ _ ha => nomatch ha

/-- The arguments of a plain stretch begin with its bounds. -/
theorem Command.args_seek {screenHasAudio : Bool}
    (hfast : (Plan.ofProject p screenHasAudio).fast = true)
    (hranges : p.ranges = [r]) (options : Options) (platform : Platform)
    (output : String) :
    ∃ body, Command.args p options platform (Plan.ofProject p screenHasAudio)
      output = .ok (["-ss", r.start.toPlain, "-to", r.stop.toPlain, "-i",
        p.screen.display] ++ body) := by
  have hargs := Command.args_of_meets
    ((Graph.build_laid p options screenHasAudio).and
      (Graph.build_inputs p options (Plan.ofProject p screenHasAudio)))
    platform output
  split at hargs
  · next words hwords =>
      obtain ⟨out, g, ⟨_, hinputs, _⟩, rfl⟩ := hargs
      obtain ⟨hcamera, hmicrophone, _⟩ := Plan.of_fast hfast
      have hscreen : (Plan.ofProject p screenHasAudio).screenInput =
          ⟨p.screen.display, some r.start, some r.stop⟩ := by
        rw [Plan.screenInput, hfast]
        simp only [Plan.ofProject, hranges]
      have hextra : (Plan.ofProject p screenHasAudio).extraInputs = [] := by
        simp [Plan.extraInputs, Plan.ofProject, hcamera, hmicrophone]
      rw [hwords, hinputs, hscreen, hextra, List.append_assoc]
      exact ⟨_, rfl⟩
  · exact absurd (Plan.writable_of_fast hfast _) hargs

/-- What is sought of a recording that is read from one stretch: the bounds of
the only enabled segment, which is never all of the recording, and is a strict
part of it just when it lies in it. -/
structure Seeks (p : Project) (screenHasAudio : Bool) (s : Segment) : Prop where
  only : p.edits.segments.filter (·.enabled) = [s]
  sought : ∀ (options : Options) (platform : Platform) (output : String),
    ∃ body, Command.args p options platform (Plan.ofProject p screenHasAudio)
      output = .ok (["-ss", s.start.toPlain, "-to", s.stop.toPlain, "-i",
        p.screen.display] ++ body)
  part : 0 < s.start.value ∨ s.stop.value < p.duration.value
  rising : (0.003 : Binary64).value ≤ p.duration.value →
    s.start.value < s.stop.value
  strict : (⟨s.start, s.stop⟩ : Range).StrictPart p.duration ↔
    0 ≤ s.start.value ∧ s.start.value < s.stop.value ∧
      s.stop.value ≤ p.duration.value

/-- An export that is read from one stretch seeks to a strict part of the
recording exactly when its segment lies in the recording. -/
theorem seek_bounds (p : Project) (screenHasAudio : Bool)
    (h : p.HasFiniteTimes)
    (hfast : (Plan.ofProject p screenHasAudio).fast = true) :
    ∃ s, Seeks p screenHasAudio s := by
  obtain ⟨_, _, r, hranges, hstretch⟩ := Plan.of_fast hfast
  obtain ⟨hpart, hplain, _⟩ := of_isPlainStretch hstretch
  obtain ⟨s, honly, rfl⟩ := Project.segment_of_part h hranges hpart
  have hr := h.ranges _ (by rw [hranges]; exact List.mem_singleton.2 rfl)
  have hpart' := part_of_stretch h hr hpart
  refine ⟨s, honly, Command.args_seek hfast hranges, hpart', fun hlong => ?_,
    fun hstrict => ⟨hstrict.low, hstrict.rising, hstrict.high⟩,
    fun ⟨hlow, hrising, hhigh⟩ =>
      ⟨hlow, hrising, hhigh, fun ⟨hstart, hstop⟩ => ?_⟩⟩
  · by_contra hturned
    exact absurd (short_of_turned h hranges hplain (not_lt.1 hturned))
      (not_lt.2 hlong)
  · rcases hpart' with hlate | hearly
    · exact absurd hstart (ne_of_gt hlate)
    · exact absurd hstop (ne_of_lt hearly)

/-- The middle of a recording is a strict part of it. -/
theorem seek_bounds_middle : middleOnly.HasFiniteTimes ∧
    (Plan.ofProject middleOnly true).fast = true ∧
    Seeks middleOnly true ⟨.null, 5, 15, true⟩ ∧
    (⟨5, 15⟩ : Range).StrictPart middleOnly.duration := by
  have htimes : middleOnly.HasFiniteTimes := by
    refine Project.screenOnly_hasFiniteTimes (by decide +kernel) ?_
      fun _ h => nomatch h
    simp only [List.forall_mem_cons]
    decide +kernel
  obtain ⟨s, hseeks⟩ := seek_bounds middleOnly true htimes fast_middleOnly
  obtain rfl : (⟨.null, 5, 15, true⟩ : Segment) = s :=
    List.singleton_inj.1 hseeks.only
  exact ⟨htimes, fast_middleOnly, hseeks, hseeks.strict.2 (by decide +kernel)⟩

/-- A recording of which a segment is shown that begins five seconds before
it. -/
def beforeStart : Project := Project.screenOnly 20 [⟨.null, -5, 10, true⟩] []

theorem ranges_beforeStart : beforeStart.ranges = [⟨-5, 10⟩] :=
  Range.sort_of_sorted (by decide +kernel) (List.pairwise_singleton _ _)

theorem fast_beforeStart : (Plan.ofProject beforeStart true).fast = true := by
  have hpieces : beforeStart.pieces = [⟨-5, 10, 1, none⟩] := by
    rw [Project.pieces, Project.cutPieces, ranges_beforeStart,
      Edits.piecesOf_of_sorted (by decide +kernel)]
    decide +kernel
  have hplain : isPlainStretch beforeStart ⟨-5, 10⟩ = true := by
    rw [isPlainStretch, hpieces]
    decide +kernel
  rw [Plan.ofProject, ranges_beforeStart]
  exact hplain

/-- It is sought at five seconds before the recording begins. -/
theorem beforeStart_not_strict : beforeStart.HasFiniteTimes ∧
    (Plan.ofProject beforeStart true).fast = true ∧
    (∃ body, Command.args beforeStart {} .other (Plan.ofProject beforeStart true)
      "out.mp4" = .ok (["-ss", "-5", "-to", "10", "-i", "screen.mp4"] ++ body)) ∧
    ¬ (⟨-5, 10⟩ : Range).StrictPart beforeStart.duration := by
  refine ⟨Project.screenOnly_hasFiniteTimes (by decide +kernel) ?_
    (fun _ h => nomatch h), fast_beforeStart, ?_, fun hstrict => ?_⟩
  · simp only [List.forall_mem_cons]
    decide +kernel
  · have hlow : (-5 : Binary64).toPlain = "-5" := by decide +kernel
    have hhigh : (10 : Binary64).toPlain = "10" := by decide +kernel
    rw [← hlow, ← hhigh]
    exact Command.args_seek fast_beforeStart ranges_beforeStart
      {} .other "out.mp4"
  · exact absurd hstrict.low (by decide +kernel)

end Export

end Cutlist
