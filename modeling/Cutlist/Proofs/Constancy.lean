import Cutlist.Proofs.Tiling
import Mathlib.Data.Real.Basic

/-!
# Speed and zoom are constant in a piece

A piece takes its speed and its zoom from the effects that cover the instant at
which it starts. That one sample holds for the whole piece because no effect
begins or ends inside it: an effect that covers one instant of a piece then
covers all of them, so the first effect that is found at the start is the first
one everywhere.

A bound can still lie inside a piece, but only close behind its start or close
before the end of the range, where bounds are not cut at. Instants are real
numbers here; the bounds of effects are the exact numbers they stand for, and
`gap` is the number that the timeline compares with.
-/

namespace Cutlist

open Binary64 Timeline

/-- `found` is the first of `xs` that something holds of, if there is one. -/
def First {α : Type} (holds : α → Prop) (xs : List α) : Option α → Prop
  | some x => ∃ before after, xs = before ++ x :: after ∧ holds x ∧
      ∀ y ∈ before, ¬ holds y
  | none => ∀ y ∈ xs, ¬ holds y

theorem first_find? {α : Type} {holds : α → Prop} (keep : α → Bool)
    {xs : List α} (h : ∀ x ∈ xs, keep x = true ↔ holds x) :
    First holds xs (xs.find? keep) := by
  cases hfind : xs.find? keep with
  | none =>
      intro y hy hholds
      exact List.find?_eq_none.1 hfind y hy ((h y hy).2 hholds)
  | some x =>
      obtain ⟨hkeep, before, after, hsplit, hbefore⟩ :=
        List.find?_eq_some_iff_append.1 hfind
      refine ⟨before, after, hsplit, ?_, fun y hy hholds => ?_⟩
      · exact (h x (List.mem_of_find?_eq_some hfind)).1 hkeep
      · have hmem : y ∈ xs := by
          rw [hsplit]
          exact List.mem_append_left _ hy
        have := hbefore y hy
        rw [(h y hmem).2 hholds] at this
        cases this

/-- Whether a half-open stretch contains an instant. -/
def Contains (start stop : Binary64) (t : ℝ) : Prop :=
  (start.value : ℝ) ≤ t ∧ t < stop.value

namespace Timeline

/-! ## Nothing is cut inside a piece -/

theorem mem_of_mem_between {ts : List Binary64} {part : Range}
    (h : part ∈ between ts) : part.start ∈ ts ∧ part.stop ∈ ts := by
  simp only [between, List.mem_map, List.mem_filter] at h
  obtain ⟨⟨a, b⟩, ⟨hzip, _⟩, rfl⟩ := h
  obtain ⟨ha, hb⟩ := List.of_mem_zip hzip
  exact ⟨ha, List.mem_of_mem_tail hb⟩

/-- Neighbouring instants have no instant between them. -/
theorem not_inside_of_mem_between {ts : List Binary64}
    (hsorted : ts.Pairwise fun a b => a.ticks ≤ b.ticks) {part : Range}
    (hpart : part ∈ between ts) {c : Binary64} (hc : c ∈ ts)
    (hlow : part.start.ticks < c.ticks) : part.stop.ticks ≤ c.ticks := by
  induction ts with
  | nil => cases hc
  | cons a ts ih =>
      obtain ⟨hfirst, hrest⟩ := List.pairwise_cons.1 hsorted
      cases ts with
      | nil => cases hpart
      | cons b ts =>
          rw [between_pair] at hpart
          have later (hlater : part ∈ between (b :: ts)) :
              part.stop.ticks ≤ c.ticks := by
            refine ih hrest hlater ?_
            rcases List.mem_cons.1 hc with rfl | hmem
            · have := hfirst _ (mem_of_mem_between hlater).1
              omega
            · exact hmem
          split at hpart
          · exact later hpart
          · rcases List.mem_cons.1 hpart with rfl | hlater
            · rcases List.mem_cons.1 hc with rfl | hmem
              · exact absurd hlow (Int.lt_irrefl _)
              · rcases List.mem_cons.1 hmem with rfl | hmem
                · exact Int.le_refl _
                · exact (List.pairwise_cons.1 hrest).1 c hmem
            · exact later hlater

theorem pairwise_cuts {bounds : List Binary64} {r : Range}
    (hb : AllFinite bounds) (hr : r.IsFinite)
    (hle : r.start.ticks ≤ r.stop.ticks) :
    (cuts bounds r).Pairwise fun a b => a.ticks ≤ b.ticks := by
  rw [cuts_eq, List.pairwise_append]
  refine ⟨(rising_kept hb hr).imp Int.le_of_lt, List.pairwise_singleton _ _,
    fun a ha b hb' => ?_⟩
  rw [List.mem_singleton] at hb'
  subst hb'
  rcases List.mem_cons.1 ha with rfl | hmem
  · exact hle
  · exact (le_stop_of_interior hr (allFinite_kept hb a hmem)
      (interior_of_mem_kept hmem)).1

/-- A bound inside a part of a range is close to the start of the part or to
the end of the range. -/
theorem near_of_inside {bounds : List Binary64} {r part : Range}
    (hb : AllFinite bounds) (hr : r.IsFinite)
    (hlt : r.start.ticks < r.stop.ticks)
    (hpart : part ∈ between (cuts bounds r)) {b : Binary64} (hmem : b ∈ bounds)
    (hhigh : b.ticks < part.stop.ticks) :
    b.ticks < part.start.ticks + gap.ticks ∨
      r.stop.ticks < b.ticks + gap.ticks := by
  by_contra hfar
  rw [not_or, Int.not_lt, Int.not_lt] at hfar
  have hwithin := value_le_value.1 ((tiles_cuts hb hr hlt).within part hpart).1
  have hint : interior r b = true :=
    interior_of_ticks hr (hb b hmem) (by omega) (by omega)
  obtain ⟨c, hc, hcb, hnear⟩ := exists_kept_near hb hr hmem hint
  have := not_inside_of_mem_between (pairwise_cuts hb hr (Int.le_of_lt hlt))
    hpart (c := c) (by rw [cuts_eq]; exact List.mem_append_left _ hc) (by omega)
  omega

/-! ## One sample for a whole piece -/

theorem covers_iff {start stop time : Binary64} (hstart : start.isFinite = true)
    (hstop : stop.isFinite = true) (htime : time.isFinite = true) :
    covers start stop time = true ↔
      start.value ≤ time.value ∧ time.value < stop.value := by
  have hnan := isNaN_of_isFinite htime
  rw [covers, Bool.and_eq_true, decide_eq_true_iff, decide_eq_true_iff,
    le_iff_ticks (isNaN_of_isFinite hstart) hnan,
    lt_iff_ticks hnan (isNaN_of_isFinite hstop), value_le_value, value_lt_value]

/-- Nothing begins or ends strictly inside a range. -/
def Quiet (bounds : List Binary64) (r : Range) : Prop :=
  ∀ b ∈ bounds, ¬ (r.start.value < b.value ∧ b.value < r.stop.value)

/-- Nothing begins or ends after an instant until another has passed. -/
structure Settled (bounds : List Binary64) (time : Binary64) (t : ℝ) : Prop where
  after : (time.value : ℝ) ≤ t
  quiet : ∀ b ∈ bounds, time.value < b.value → t < b.value

/-- Nothing happens in no time. -/
theorem Settled.refl (bounds : List Binary64) (time : Binary64) :
    Settled bounds time time.value :=
  ⟨le_rfl, fun _ _ hlater => Rat.cast_lt.2 hlater⟩

theorem Quiet.settled {bounds : List Binary64} {r : Range}
    (hquiet : Quiet bounds r) {t : ℝ} (ht : Contains r.start r.stop t) :
    Settled bounds r.start t := by
  refine ⟨ht.1, fun b hb hlater => ?_⟩
  by_contra hpassed
  exact hquiet b hb
    ⟨hlater, Rat.cast_lt.1 (lt_of_le_of_lt (not_lt.1 hpassed) ht.2)⟩

/-- What covers an instant contains those after it as long as nothing begins or
ends, and what contains one of them covers the instant. -/
theorem covers_iff_contains {bounds : List Binary64} {time : Binary64}
    (hb : AllFinite bounds) (htime : time.isFinite = true) {t : ℝ}
    (h : Settled bounds time t) {start stop : Binary64}
    (hstart : start ∈ bounds) (hstop : stop ∈ bounds) :
    covers start stop time = true ↔ Contains start stop t := by
  rw [covers_iff (hb start hstart) (hb stop hstop) htime]
  constructor
  · rintro ⟨hbegun, hnotEnded⟩
    exact ⟨le_trans (Rat.cast_le.2 hbegun) h.after, h.quiet stop hstop hnotEnded⟩
  · rintro ⟨hbegun, hnotEnded⟩
    refine ⟨?_, Rat.cast_lt.1 (lt_of_le_of_lt h.after hnotEnded)⟩
    by_contra hnotBegun
    exact absurd (h.quiet start hstart (not_le.1 hnotBegun)) (not_lt.2 hbegun)

end Timeline

namespace Edits

variable {e : Edits}

theorem mem_bounds_of_speed {s : SpeedEffect} (h : s ∈ e.speed) :
    s.start ∈ e.bounds ∧ s.stop ∈ e.bounds := by
  simp only [bounds, List.mem_append, List.mem_flatMap]
  exact ⟨.inl ⟨s, h, by simp⟩, .inl ⟨s, h, by simp⟩⟩

theorem mem_bounds_of_zoom {z : ZoomEffect} (h : z ∈ e.zoom) :
    z.start ∈ e.bounds ∧ z.stop ∈ e.bounds := by
  simp only [bounds, List.mem_append, List.mem_flatMap]
  exact ⟨.inr ⟨z, h, by simp⟩, .inr ⟨z, h, by simp⟩⟩

/-- The speed at an instant, as the first effect declared over it gives it. -/
def SpeedIs (e : Edits) (t : ℝ) (speed : Binary64) : Prop :=
  ∃ found, First (fun s : SpeedEffect => Contains s.start s.stop t)
    e.speed found ∧
    speed = (found.map SpeedEffect.speed).getD 1

/-- The zoom at an instant, as the first effect declared over it that enlarges
gives it. -/
def ZoomIs (e : Edits) (t : ℝ) (zoom : Option ActiveZoom) : Prop :=
  ∃ found, First (fun z : ZoomEffect =>
      Contains z.start z.stop t ∧ 1 < z.scale) e.zoom found ∧
    zoom = found.map fun z => ⟨z.scale, z.x, z.y⟩

section Sample

variable {r : Range} {time : Binary64} {t : ℝ}

theorem speedIs_settled (hb : AllFinite e.bounds) (htime : time.isFinite = true)
    (h : Settled e.bounds time t) : e.SpeedIs t (speedAt e.speed time) := by
  refine ⟨_, first_find? (fun s => covers s.start s.stop time)
    fun s hs => ?_, ?_⟩
  · obtain ⟨hstart, hstop⟩ := mem_bounds_of_speed hs
    exact covers_iff_contains hb htime h hstart hstop
  · rw [speedAt]
    cases e.speed.find? fun s => covers s.start s.stop time with
    | none => rfl
    | some s => rfl

theorem zoomIs_settled (hb : AllFinite e.bounds) (htime : time.isFinite = true)
    (h : Settled e.bounds time t) : e.ZoomIs t (zoomAt e.zoom time) := by
  refine ⟨_, first_find? (fun z =>
    covers z.start z.stop time && decide (1 < z.scale)) fun z hz => ?_, rfl⟩
  obtain ⟨hstart, hstop⟩ := mem_bounds_of_zoom hz
  rw [Bool.and_eq_true, decide_eq_true_iff,
    covers_iff_contains hb htime h hstart hstop]

theorem speedIs_sample (hb : AllFinite e.bounds) (hr : r.start.isFinite = true)
    (hquiet : Quiet e.bounds r) (ht : Contains r.start r.stop t) :
    e.SpeedIs t (speedAt e.speed r.start) :=
  speedIs_settled hb hr (hquiet.settled ht)

theorem zoomIs_sample (hb : AllFinite e.bounds) (hr : r.start.isFinite = true)
    (hquiet : Quiet e.bounds r) (ht : Contains r.start r.stop t) :
    e.ZoomIs t (zoomAt e.zoom r.start) :=
  zoomIs_settled hb hr (hquiet.settled ht)

end Sample

end Edits

namespace Project

variable {p : Project}

theorem mem_cutRanges_of_shown (h : p.HasFiniteTimes) {r : Range}
    (hr : r ∈ p.shown) : r ∈ p.cutRanges :=
  (inOrder_cutRanges h).perm.mem_iff.2 hr

theorem mem_pieces (h : p.HasFiniteTimes) {r : Range} (hr : r ∈ p.cutRanges)
    {q : Piece} (hq : q ∈ p.edits.piecesOf r) : q ∈ p.pieces := by
  rw [pieces_of_ne_nil h (List.ne_nil_of_mem hr), ← List.flatMap_def]
  exact List.mem_flatMap.2 ⟨r, hr, hq⟩

/-- Of a piece cut from a range that an export shows: a bound of an effect
inside it is close behind its start or close before the end of the range, and
when there is none, its speed and its zoom are those of every instant in it. -/
theorem speed_and_zoom_constant (p : Project) (h : p.HasFiniteTimes)
    (r : Range) (hr : r ∈ p.shown) (q : Piece) (hq : q ∈ p.edits.piecesOf r) :
    q ∈ p.pieces ∧
    (∀ b ∈ p.edits.bounds, q.start.value < b.value → b.value < q.stop.value →
      b.value < q.start.value + gap.value ∨
        r.stop.value - gap.value < b.value) ∧
    (Quiet p.edits.bounds q.range → ∀ t : ℝ, Contains q.start q.stop t →
      p.edits.SpeedIs t q.speed ∧ p.edits.ZoomIs t q.zoom) := by
  have hcut := mem_cutRanges_of_shown h hr
  obtain ⟨hmem, hlt⟩ := (mem_cutRanges h).1 hcut
  have hb := h.allFinite_bounds
  have hfin := h.ranges r hmem
  refine ⟨mem_pieces h hcut hq, fun b hbound _ hhigh => ?_,
    fun hquiet t ht => ?_⟩
  · have hpart : q.range ∈ between (cuts p.edits.bounds r) := by
      rw [← Edits.map_range_piecesOf]
      exact List.mem_map_of_mem hq
    rw [value_lt_add, sub_lt_value]
    exact near_of_inside hb hfin (value_lt_value.1 hlt) hpart hbound
      (value_lt_value.1 hhigh)
  · obtain ⟨part, hpart, rfl⟩ := List.mem_map.1 hq
    have hstart := allFinite_cuts hb hfin _ (mem_of_mem_between hpart).1
    exact ⟨Edits.speedIs_sample hb hstart hquiet ht,
      Edits.zoomIs_sample hb hstart hquiet ht⟩

/-- The middle piece of a recording that is shown at double speed for a while:
its speed is 2 at every instant. -/
theorem speed_and_zoom_constant_middle :
    (screenOnly 10 [⟨.null, 0, 10, true⟩] [⟨.null, 2, 4, 2⟩]).HasFiniteTimes ∧
    (⟨0, 10⟩ : Range) ∈
      (screenOnly 10 [⟨.null, 0, 10, true⟩] [⟨.null, 2, 4, 2⟩]).shown ∧
    (⟨2, 4, 2, none⟩ : Piece) ∈ (screenOnly 10 [⟨.null, 0, 10, true⟩]
      [⟨.null, 2, 4, 2⟩]).edits.piecesOf ⟨0, 10⟩ ∧
    ∀ t : ℝ, Contains 2 4 t → (screenOnly 10 [⟨.null, 0, 10, true⟩]
      [⟨.null, 2, 4, 2⟩]).edits.SpeedIs t 2 := by
  have hfin : (screenOnly 10 [⟨.null, 0, 10, true⟩]
      [⟨.null, 2, 4, 2⟩]).HasFiniteTimes := by
    refine screenOnly_hasFiniteTimes (by decide +kernel) ?_ ?_
    · simp only [List.forall_mem_cons]
      decide +kernel
    · simp only [List.forall_mem_cons]
      decide +kernel
  have hshown : (⟨0, 10⟩ : Range) ∈ (screenOnly 10 [⟨.null, 0, 10, true⟩]
      [⟨.null, 2, 4, 2⟩]).shown :=
    List.mem_filter.2
      ⟨by decide +kernel, decide_eq_true (value_lt_value.2 (by decide +kernel))⟩
  have hpiece : (⟨2, 4, 2, none⟩ : Piece) ∈ (screenOnly 10
      [⟨.null, 0, 10, true⟩] [⟨.null, 2, 4, 2⟩]).edits.piecesOf ⟨0, 10⟩ := by
    rw [Edits.piecesOf_of_sorted (by decide +kernel)]
    decide +kernel
  refine ⟨hfin, hshown, hpiece, fun t ht => ?_⟩
  refine ((speed_and_zoom_constant _ hfin _ hshown _ hpiece).2.2 ?_ t ht).1
  simp only [Quiet, value_lt_value]
  decide +kernel

end Project

end Cutlist
