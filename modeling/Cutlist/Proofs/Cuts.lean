import Cutlist.Proofs.Rounding
import Cutlist.Timeline

/-!
# Where a range is cut

A range is cut at the bounds of effects that keep their distance from its ends
and from the cut before them. Two facts carry everything that is proved of
pieces. The cuts rise strictly, whatever bounds there are, because a cut that
is kept is at least `gap` beyond the one before it. And a bound that is left
out is never far from what was kept: less than `gap` after a cut, or less than
`gap` before the end of the range.

The one irregular case is at the end. For a large time the distance `gap` is
lost in rounding, and then the end of the range is itself a bound that passes
as interior. Its pair with the end is empty and is dropped, and the piece
before it already ends where the range ends.
-/

namespace Cutlist

/-- Both ends are numbers. -/
def Range.IsFinite (r : Range) : Prop :=
  r.start.isFinite = true ∧ r.stop.isFinite = true

namespace Timeline

open Binary64

/-- Every instant is a number. -/
def AllFinite (ts : List Binary64) : Prop := ∀ t ∈ ts, t.isFinite = true

/-- Strictly rising instants. -/
abbrev Rising (ts : List Binary64) : Prop :=
  ts.Pairwise fun a b => a.ticks < b.ticks

theorem AllFinite.head {t : Binary64} {ts : List Binary64}
    (h : AllFinite (t :: ts)) : t.isFinite = true := h t (List.mem_cons_self ..)

theorem AllFinite.tail {t : Binary64} {ts : List Binary64}
    (h : AllFinite (t :: ts)) : AllFinite ts :=
  fun x hx => h x (List.mem_cons_of_mem t hx)

/-! ## The distance between cuts -/

theorem gap_finite : gap.isFinite = true := by decide +kernel

theorem gap_pos : 0 < gap.ticks := by decide +kernel

/-- A cut that is kept lies beyond the one before it. -/
theorem lt_of_gap_le {last t : Binary64} (hlast : last.isFinite = true)
    (ht : t.isFinite = true) (h : gap ≤ t - last) : last.ticks < t.ticks := by
  rw [le_iff_ticks (isNaN_of_isFinite gap_finite) (isNaN_sub ht hlast)] at h
  have hgap := gap_pos
  by_contra hge
  have hzero : (t - last).ticks ≤ (zero false).ticks :=
    ticks_sub_le ht hlast rfl (show _ ≤ (0 : Int) by omega)
  have : (zero false).ticks = 0 := rfl
  omega

/-- A bound that is left out is closer than `gap` to the cut before it. -/
theorem lt_of_not_gap_le {last t : Binary64} (hlast : last.isFinite = true)
    (ht : t.isFinite = true) (h : ¬ gap ≤ t - last) :
    t.ticks < last.ticks + gap.ticks := by
  rw [le_iff_ticks (isNaN_of_isFinite gap_finite) (isNaN_sub ht hlast)] at h
  by_contra hge
  exact h (le_ticks_sub ht hlast gap_finite (by omega))

/-- A bound at a distance from both ends is interior. -/
theorem interior_of_ticks {r : Range} {t : Binary64} (hr : r.IsFinite)
    (ht : t.isFinite = true) (hlow : r.start.ticks + gap.ticks ≤ t.ticks)
    (hhigh : t.ticks ≤ r.stop.ticks - gap.ticks) : interior r t = true := by
  have hnan := isNaN_of_isFinite ht
  simp only [interior, Bool.and_eq_true, decide_eq_true_eq]
  rw [le_iff_ticks (isNaN_add hr.1 gap_finite) hnan,
    le_iff_ticks hnan (isNaN_sub hr.2 gap_finite)]
  exact ⟨ticks_add_le hr.1 gap_finite ht hlow,
    le_ticks_sub hr.2 gap_finite ht hhigh⟩

/-- An interior bound is not beyond the end, and one that reaches the end is
the end, down to the sign of a zero: at zero the distance is not lost. -/
theorem le_stop_of_interior {r : Range} {t : Binary64} (hr : r.IsFinite)
    (ht : t.isFinite = true) (h : interior r t = true) :
    t.ticks ≤ r.stop.ticks ∧ (r.stop.ticks ≤ t.ticks → t = r.stop) := by
  have hgap := gap_pos
  simp only [interior, Bool.and_eq_true, decide_eq_true_eq] at h
  have hhigh := h.2
  rw [le_iff_ticks (isNaN_of_isFinite ht) (isNaN_sub hr.2 gap_finite)] at hhigh
  have hle : (r.stop - gap).ticks ≤ r.stop.ticks :=
    ticks_sub_le hr.2 gap_finite hr.2 (by omega)
  refine ⟨by omega, fun hge => ?_⟩
  refine eq_of_ticks_eq ht hr.2 (by omega) fun hzero => ?_
  have hbelow : (r.stop - gap).ticks ≤ (-gap).ticks :=
    ticks_sub_le hr.2 gap_finite ((isFinite_neg gap).trans gap_finite)
      (by rw [ticks_neg]; omega)
  rw [ticks_neg] at hbelow
  omega

/-! ## The cuts that are kept -/

theorem mem_of_mem_spread {last x : Binary64} {ts : List Binary64}
    (h : x ∈ spread last ts) : x ∈ ts := by
  induction ts generalizing last with
  | nil => exact h
  | cons t ts ih =>
      rw [spread] at h
      split at h
      · rcases List.mem_cons.1 h with rfl | hmem
        · exact List.mem_cons_self ..
        · exact List.mem_cons_of_mem _ (ih hmem)
      · exact List.mem_cons_of_mem _ (ih h)

theorem rising_spread {last : Binary64} {ts : List Binary64}
    (hlast : last.isFinite = true) (hts : AllFinite ts) :
    Rising (last :: spread last ts) := by
  induction ts generalizing last with
  | nil => exact List.pairwise_singleton _ _
  | cons t ts ih =>
      rw [spread]
      split
      · next hgap =>
          have hlt := lt_of_gap_le hlast hts.head hgap
          have hrest := ih hts.head hts.tail
          refine List.pairwise_cons.2 ⟨fun x hx => ?_, hrest⟩
          rcases List.mem_cons.1 hx with rfl | hmem
          · exact hlt
          · have := (List.pairwise_cons.1 hrest).1 x hmem
            omega
      · exact ih hlast hts.tail

/-- Every bound lies less than `gap` after some cut. The induction needs the
bounds in order: what was kept so far is then not beyond the bounds to come. -/
theorem exists_cut_near {last : Binary64} {ts : List Binary64}
    (hlast : last.isFinite = true) (hts : AllFinite ts)
    (hsorted : (last :: ts).Pairwise fun a b => a.ticks ≤ b.ticks) :
    ∀ b ∈ ts, ∃ c ∈ last :: spread last ts,
      c.ticks ≤ b.ticks ∧ b.ticks < c.ticks + gap.ticks := by
  have hgap := gap_pos
  induction ts generalizing last with
  | nil =>
      intro b hb
      cases hb
  | cons t ts ih =>
      intro b hb
      obtain ⟨hfirst, htail⟩ := List.pairwise_cons.1 hsorted
      have hlt := hfirst t (List.mem_cons_self ..)
      rw [spread]
      split
      · rcases List.mem_cons.1 hb with rfl | hmem
        · exact ⟨b, by simp, Int.le_refl _, by omega⟩
        · obtain ⟨c, hc, hnear⟩ := ih hts.head hts.tail htail b hmem
          exact ⟨c, List.mem_cons_of_mem _ hc, hnear⟩
      · next hclose =>
          rcases List.mem_cons.1 hb with rfl | hmem
          · exact ⟨last, List.mem_cons_self .., hlt,
              lt_of_not_gap_le hlast hts.head hclose⟩
          · have hskip : (last :: ts).Pairwise fun a b => a.ticks ≤ b.ticks :=
              List.pairwise_cons.2
                ⟨fun x hx => hfirst x (List.mem_cons_of_mem _ hx),
                  (List.pairwise_cons.1 htail).2⟩
            exact ih hlast hts.tail hskip b hmem

/-! ## Order of time -/

/-- Where every key is a number, sorting by it is sorting by its ticks, which
is a total order. -/
theorem mergeSort_ticks {α : Type} (key : α → Binary64) {xs : List α}
    (h : ∀ x ∈ xs, (key x).isNaN = false) :
    xs.mergeSort (fun a b => decide (key a ≤ key b)) =
      xs.mergeSort fun a b => decide ((key a).ticks ≤ (key b).ticks) := by
  have := List.map_mergeSort (f := id) (l := xs)
    (r := fun a b => decide (key a ≤ key b))
    (s := fun a b => decide ((key a).ticks ≤ (key b).ticks))
    fun a ha b hb => decide_eq_decide.2 (le_iff_ticks (h a ha) (h b hb))
  simpa only [List.map_id] using this

section Order

variable {α : Type} (key : α → Binary64) (a b c : α)

theorem ticks_le_trans
    (hab : decide ((key a).ticks ≤ (key b).ticks) = true)
    (hbc : decide ((key b).ticks ≤ (key c).ticks) = true) :
    decide ((key a).ticks ≤ (key c).ticks) = true := by
  simp only [decide_eq_true_eq] at hab hbc ⊢
  exact Int.le_trans hab hbc

theorem ticks_le_total :
    (decide ((key a).ticks ≤ (key b).ticks) ||
      decide ((key b).ticks ≤ (key a).ticks)) = true := by
  simp only [Bool.or_eq_true, decide_eq_true_eq]
  exact Int.le_total _ _

end Order

theorem pairwise_mergeSort_ticks {α : Type} (key : α → Binary64) {xs : List α}
    (h : ∀ x ∈ xs, (key x).isNaN = false) :
    (xs.mergeSort fun a b => decide (key a ≤ key b)).Pairwise
      fun a b => (key a).ticks ≤ (key b).ticks := by
  rw [mergeSort_ticks key h]
  refine (List.pairwise_mergeSort (ticks_le_trans key) (ticks_le_total key)
    xs).imp fun hle => ?_
  exact of_decide_eq_true hle

/-! ## The cuts of a range -/

/-- The bounds inside a range, in order. -/
def inside (bounds : List Binary64) (r : Range) : List Binary64 :=
  (bounds.filter (interior r)).mergeSort fun a b => decide (a ≤ b)

/-- The cuts of a range, without its ends. -/
def kept (bounds : List Binary64) (r : Range) : List Binary64 :=
  spread r.start (inside bounds r)

theorem cuts_eq (bounds : List Binary64) (r : Range) :
    cuts bounds r = r.start :: kept bounds r ++ [r.stop] := rfl

theorem mem_inside {bounds : List Binary64} {r : Range} {t : Binary64} :
    t ∈ inside bounds r ↔ t ∈ bounds ∧ interior r t = true := by
  rw [inside, List.mem_mergeSort, List.mem_filter]

section Range

variable {bounds : List Binary64} {r : Range}

/-- Sorting leaves alone what is in order; merge sort itself does not
reduce. -/
theorem cuts_of_sorted (h : bounds.Pairwise fun a b => a ≤ b) :
    cuts bounds r =
      r.start :: spread r.start (bounds.filter (interior r)) ++ [r.stop] := by
  rw [cuts_eq, kept, inside,
    List.mergeSort_of_pairwise ((h.filter _).imp decide_eq_true)]

theorem allFinite_inside (hb : AllFinite bounds) :
    AllFinite (inside bounds r) :=
  fun t ht => hb t (mem_inside.1 ht).1

theorem allFinite_kept (hb : AllFinite bounds) : AllFinite (kept bounds r) :=
  fun t ht => allFinite_inside hb t (mem_of_mem_spread ht)

theorem interior_of_mem_kept {t : Binary64} (ht : t ∈ kept bounds r) :
    interior r t = true := (mem_inside.1 (mem_of_mem_spread ht)).2

theorem allFinite_cuts (hb : AllFinite bounds) (hr : r.IsFinite) :
    AllFinite (cuts bounds r) := by
  intro t ht
  rw [cuts_eq, List.mem_append, List.mem_cons, List.mem_singleton] at ht
  rcases ht with (rfl | hmem) | rfl
  · exact hr.1
  · exact allFinite_kept hb t hmem
  · exact hr.2

theorem rising_kept (hb : AllFinite bounds) (hr : r.IsFinite) :
    Rising (r.start :: kept bounds r) :=
  rising_spread hr.1 (allFinite_inside hb)

/-- An interior bound is not before the start of its range. -/
theorem start_le_of_interior {t : Binary64} (hr : r.IsFinite)
    (ht : t.isFinite = true) (h : interior r t = true) :
    r.start.ticks ≤ t.ticks := by
  have hgap := gap_pos
  simp only [interior, Bool.and_eq_true, decide_eq_true_eq] at h
  have hlow := h.1
  rw [le_iff_ticks (isNaN_add hr.1 gap_finite) (isNaN_of_isFinite ht)] at hlow
  have hge := le_ticks_add hr.1 gap_finite hr.1 (by omega)
  omega

/-- An interior bound lies less than `gap` after a cut. -/
theorem exists_kept_near (hb : AllFinite bounds) (hr : r.IsFinite)
    {b : Binary64} (hmem : b ∈ bounds) (hint : interior r b = true) :
    ∃ c ∈ r.start :: kept bounds r,
      c.ticks ≤ b.ticks ∧ b.ticks < c.ticks + gap.ticks := by
  have hfin := allFinite_inside (r := r) hb
  refine exists_cut_near hr.1 hfin (List.pairwise_cons.2 ⟨fun t ht => ?_, ?_⟩)
    b (mem_inside.2 ⟨hmem, hint⟩)
  · exact start_le_of_interior hr (hfin t ht) (mem_inside.1 ht).2
  · refine pairwise_mergeSort_ticks id fun t ht => ?_
    exact isNaN_of_isFinite (hb t (List.mem_filter.1 ht).1)

end Range

end Timeline

/-! ## Projects whose times are numbers -/

open Timeline

/-- Every time that decides where a recording is cut is a number. -/
structure Project.HasFiniteTimes (p : Project) : Prop where
  duration : p.duration.isFinite = true
  segments : ∀ s ∈ p.edits.segments,
    s.start.isFinite = true ∧ s.stop.isFinite = true
  speed : ∀ e ∈ p.edits.speed, e.start.isFinite = true ∧ e.stop.isFinite = true
  zoom : ∀ e ∈ p.edits.zoom, e.start.isFinite = true ∧ e.stop.isFinite = true

namespace Project.HasFiniteTimes

variable {p : Project}

theorem allFinite_bounds (h : p.HasFiniteTimes) :
    AllFinite p.edits.bounds := by
  intro t ht
  simp only [Edits.bounds, List.mem_append, List.mem_flatMap, List.mem_cons,
    List.not_mem_nil, or_false] at ht
  rcases ht with ⟨e, he, rfl | rfl⟩ | ⟨e, he, rfl | rfl⟩
  · exact (h.speed e he).1
  · exact (h.speed e he).2
  · exact (h.zoom e he).1
  · exact (h.zoom e he).2

end Project.HasFiniteTimes

end Cutlist
