import Cutlist.Proofs.Cuts
import Mathlib.Algebra.BigOperators.Group.List.Basic
import Mathlib.Algebra.Order.Group.Defs
import Mathlib.Tactic.Ring
import Mathlib.Tactic.Linarith

/-!
# Pieces tile what is shown

An export shows the enabled segments, in order of their start, and its pieces
are those segments cut up: the pieces of a segment begin where it begins, end
where it ends, and each begins exactly where the one before it ends. Nothing
else is a piece. With no segment enabled all of the recording stands for one,
and is cut at the bounds of effects just the same; only when nothing that is
shown ends after it starts does the recording stay in one plain piece.

`Tiles` says this of one range, by recursion on its cuts, so that a proof
about pieces is an induction on that relation. Lengths are exact: they are
differences of the numbers, not rounded differences.
-/

namespace Cutlist

open Binary64 Timeline

/-- The exact length of a range. -/
def Range.length (r : Range) : ℚ := r.stop.value - r.start.value

/-- The stretch that a piece shows. -/
def Piece.range (q : Piece) : Range := ⟨q.start, q.stop⟩

/-- Ranges that end after they start and follow one another without a gap from
the start of a range to its end. -/
inductive Tiles : Range → List Range → Prop
  | whole {r : Range} (h : r.start.value < r.stop.value) : Tiles r [r]
  | cut {r : Range} {c : Binary64} {parts : List Range}
      (h : r.start.value < c.value) (rest : Tiles ⟨c, r.stop⟩ parts) :
      Tiles r (⟨r.start, c⟩ :: parts)

namespace Tiles

variable {r : Range} {parts : List Range}

theorem ne_nil (h : Tiles r parts) : parts ≠ [] := by
  cases h <;> exact List.cons_ne_nil _ _

theorem sum_length (h : Tiles r parts) :
    (parts.map Range.length).sum = r.length := by
  induction h with
  | whole _ => simp
  | cut _ _ ih =>
      rw [List.map_cons, List.sum_cons, ih]
      simp only [Range.length]
      ring

theorem start_lt_stop (h : Tiles r parts) : r.start.value < r.stop.value := by
  induction h with
  | whole h => exact h
  | cut h _ ih => exact lt_trans h ih

theorem within (h : Tiles r parts) : ∀ part ∈ parts,
    r.start.value ≤ part.start.value ∧ part.start.value < part.stop.value ∧
      part.stop.value ≤ r.stop.value := by
  induction h with
  | whole h =>
      intro part hpart
      rw [List.mem_singleton] at hpart
      subst hpart
      exact ⟨le_refl _, h, le_refl _⟩
  | cut h rest ih =>
      intro part hpart
      rcases List.mem_cons.1 hpart with rfl | hmem
      · exact ⟨le_refl _, h, le_of_lt rest.start_lt_stop⟩
      · obtain ⟨hlow, hpos, hhigh⟩ := ih part hmem
        exact ⟨le_trans (le_of_lt h) hlow, hpos, hhigh⟩

end Tiles

namespace Timeline

/-! ## One range -/

theorem between_pair (a b : Binary64) (ts : List Binary64) :
    between (a :: b :: ts) =
      if b ≤ a then between (b :: ts) else ⟨a, b⟩ :: between (b :: ts) := by
  simp only [between, List.tail_cons, List.zip_cons_cons, List.filter_cons]
  split
  · next h => rw [if_neg (by simpa using h), List.map_cons]
  · next h => rw [if_pos (by simpa using h)]

/-- Rising cuts tile. The induction is on the cuts; the end can come twice,
as a cut and as the end, and then the empty pair is left out. -/
theorem tiles_between {ys : List Binary64} {x stop : Binary64}
    (hfin : AllFinite (x :: ys)) (hstop : stop.isFinite = true)
    (hrise : Rising (x :: ys)) (hlt : x.ticks < stop.ticks)
    (hend : ∀ y ∈ ys, y.ticks ≤ stop.ticks ∧
      (stop.ticks ≤ y.ticks → y = stop)) :
    Tiles ⟨x, stop⟩ (between (x :: ys ++ [stop])) := by
  have hnan := isNaN_of_isFinite hstop
  induction ys generalizing x with
  | nil =>
      have hle : ¬ stop ≤ x := by
        rw [le_iff_ticks hnan (isNaN_of_isFinite hfin.head)]
        omega
      rw [List.cons_append, List.nil_append, between_pair, if_neg hle]
      exact .whole (value_lt_value.2 hlt)
  | cons y ys ih =>
      obtain ⟨hfirst, hrest⟩ := List.pairwise_cons.1 hrise
      have hxy := hfirst y (List.mem_cons_self ..)
      have hle : ¬ y ≤ x := by
        rw [le_iff_ticks (isNaN_of_isFinite hfin.tail.head)
          (isNaN_of_isFinite hfin.head)]
        omega
      rw [List.cons_append, List.cons_append, between_pair, if_neg hle]
      rcases Int.lt_or_le y.ticks stop.ticks with hbefore | hlast
      · refine .cut (value_lt_value.2 hxy) ?_
        exact ih hfin.tail hrest hbefore fun z hz =>
          hend z (List.mem_cons_of_mem y hz)
      · obtain rfl : y = stop := (hend y (List.mem_cons_self ..)).2 hlast
        have hnone : ys = [] := by
          rw [List.eq_nil_iff_forall_not_mem]
          intro z hz
          have := (List.pairwise_cons.1 hrest).1 z hz
          have := (hend z (List.mem_cons_of_mem y hz)).1
          omega
        have hrefl : y ≤ y := (le_iff_ticks hnan hnan).2 (Int.le_refl _)
        rw [hnone, List.nil_append, between_pair, if_pos hrefl]
        exact .whole (value_lt_value.2 hxy)

/-- The cuts of a range tile it. -/
theorem tiles_cuts {bounds : List Binary64} {r : Range}
    (hb : AllFinite bounds) (hr : r.IsFinite)
    (hlt : r.start.ticks < r.stop.ticks) :
    Tiles r (between (cuts bounds r)) := by
  rw [cuts_eq]
  refine tiles_between (fun t ht => ?_) hr.2 (rising_kept hb hr) hlt
    fun y hy => ?_
  · rcases List.mem_cons.1 ht with rfl | hmem
    · exact hr.1
    · exact allFinite_kept hb t hmem
  · exact le_stop_of_interior hr (allFinite_kept hb y hy)
      (interior_of_mem_kept hy)

end Timeline

theorem Edits.map_range_piecesOf (e : Edits) (r : Range) :
    (e.piecesOf r).map Piece.range = between (cuts e.bounds r) := by
  rw [Edits.piecesOf, List.map_map]
  exact List.map_id _

theorem Edits.range_mem_between {e : Edits} {r : Range} {q : Piece}
    (hq : q ∈ e.piecesOf r) : q.range ∈ between (cuts e.bounds r) := by
  rw [← Edits.map_range_piecesOf]
  exact List.mem_map_of_mem hq

theorem Edits.piecesOf_of_sorted {e : Edits}
    (h : e.bounds.Pairwise fun a b => a ≤ b) :
    e.piecesOf = fun r => (between (r.start ::
      spread r.start (e.bounds.filter (interior r)) ++ [r.stop])).map fun part =>
        ⟨part.start, part.stop, speedAt e.speed part.start,
          zoomAt e.zoom part.start⟩ := by
  funext r
  rw [Edits.piecesOf, cuts_of_sorted h]

/-! ## Order of time -/

/-- `ys` are the ranges `xs` in order of their start, and ranges that need not
change places keep their order. -/
structure InOrder (xs ys : List Range) : Prop where
  perm : ys.Perm xs
  rising : ys.Pairwise fun a b => a.start.value ≤ b.start.value
  stable : ∀ {a b : Range}, [a, b].Sublist xs →
    a.start.value ≤ b.start.value → [a, b].Sublist ys

theorem InOrder.filter {xs ys : List Range} (h : InOrder xs ys)
    (keep : Range → Bool) : InOrder (xs.filter keep) (ys.filter keep) where
  perm := h.perm.filter keep
  rising := h.rising.filter keep
  stable := by
    intro a b hsub hle
    have hkeep : ∀ x ∈ [a, b], keep x = true := fun x hx =>
      (List.mem_filter.1 (hsub.subset hx)).2
    have := (h.stable (hsub.trans (List.filter_sublist ..)) hle).filter keep
    rwa [List.filter_eq_self.2 hkeep] at this

theorem Range.sort_of_sorted {xs : List Range}
    (hnan : ∀ x ∈ xs, x.start.isNaN = false)
    (h : xs.Pairwise fun a b => a.start ≤ b.start) : Range.sort xs = xs := by
  have hall : (xs.all fun r => !r.start.isNaN) = true := by
    simpa [List.all_eq_true] using hnan
  rw [Range.sort, if_pos hall]
  exact List.mergeSort_of_pairwise (h.imp decide_eq_true)

theorem inOrder_sort {xs : List Range}
    (h : ∀ x ∈ xs, x.start.isNaN = false) : InOrder xs (Range.sort xs) := by
  have hall : (xs.all fun r => !r.start.isNaN) = true := by
    simpa [List.all_eq_true] using h
  rw [Range.sort, if_pos hall]
  refine ⟨List.mergeSort_perm .., ?_, ?_⟩
  · exact (pairwise_mergeSort_ticks Range.start h).imp value_le_value.2
  · intro a b hsub hle
    rw [mergeSort_ticks Range.start h]
    exact List.pair_sublist_mergeSort (ticks_le_trans Range.start)
      (ticks_le_total Range.start)
      (decide_eq_true (value_le_value.1 hle)) hsub

/-! ## The timeline -/

namespace Project

/-- The enabled segments as they are declared. -/
def enabledRanges (p : Project) : List Range :=
  (p.edits.segments.filter (·.enabled)).map fun s => ⟨s.start, s.stop⟩

/-- What an export shows: the enabled segments, or all of the recording when
none is enabled, that end after they start. -/
def shown (p : Project) : List Range :=
  (if p.enabledRanges = [] then [p.whole] else p.enabledRanges).filter
    fun r => decide (r.start.value < r.stop.value)

/-- The pieces are the chains, one for each range in order, each of which
tiles its range. Only with no range at all is the recording one plain
piece. -/
structure CutInto (p : Project) (order : List Range)
    (chains : List (List Piece)) : Prop where
  sorted : InOrder p.shown order
  tiled : List.Forall₂ (fun r chain => Tiles r (chain.map Piece.range))
    order chains
  joined : order ≠ [] → p.pieces = chains.flatten
  plain : order = [] → p.pieces = [⟨0, p.duration, 1, none⟩]
  lengths : order ≠ [] → (p.pieces.map fun q => q.range.length).sum =
    (order.map Range.length).sum
  within : order ≠ [] → ∀ q ∈ p.pieces, ∃ r ∈ order,
    r.start.value ≤ q.start.value ∧ q.stop.value ≤ r.stop.value

namespace HasFiniteTimes

variable {p : Project}

theorem whole (h : p.HasFiniteTimes) : p.whole.IsFinite :=
  ⟨show (0 : Binary64).isFinite = true by decide +kernel, h.duration⟩

theorem enabledRanges (h : p.HasFiniteTimes) :
    ∀ r ∈ p.enabledRanges, r.IsFinite := by
  intro r hr
  obtain ⟨s, hs, rfl⟩ := List.mem_map.1 hr
  exact h.segments s (List.mem_filter.1 hs).1

theorem ranges_before_sort (h : p.HasFiniteTimes) :
    ∀ r ∈ (if p.enabledRanges.isEmpty then [p.whole] else p.enabledRanges),
      r.IsFinite := by
  split
  · intro r hr
    rw [List.mem_singleton] at hr
    subst hr
    exact h.whole
  · exact h.enabledRanges

theorem ranges (h : p.HasFiniteTimes) : ∀ r ∈ p.ranges, r.IsFinite := by
  intro r hr
  refine h.ranges_before_sort r ?_
  refine (inOrder_sort fun x hx => ?_).perm.mem_iff.1 hr
  exact isNaN_of_isFinite (h.ranges_before_sort x hx).1

end HasFiniteTimes

/-- The ranges that are cut, in order. -/
def cutRanges (p : Project) : List Range :=
  p.ranges.filter fun r => !decide (r.stop ≤ r.start)

theorem cutPieces_eq (p : Project) :
    p.cutPieces = (p.cutRanges.map p.edits.piecesOf).flatten := by
  rw [cutPieces, ← List.flatMap_def]
  rfl

variable {p : Project}

theorem cutRanges_eq (h : p.HasFiniteTimes) : p.cutRanges =
    p.ranges.filter fun r => decide (r.start.value < r.stop.value) := by
  refine List.filter_congr fun r hr => ?_
  obtain ⟨hstart, hstop⟩ := h.ranges r hr
  rw [Bool.eq_iff_iff, Bool.not_eq_true', decide_eq_false_iff_not,
    le_iff_ticks (isNaN_of_isFinite hstop) (isNaN_of_isFinite hstart),
    decide_eq_true_iff, value_lt_value, Int.not_le]

theorem mem_cutRanges (h : p.HasFiniteTimes) {r : Range} :
    r ∈ p.cutRanges ↔ r ∈ p.ranges ∧ r.start.value < r.stop.value := by
  rw [cutRanges_eq h, List.mem_filter, decide_eq_true_iff]

theorem inOrder_cutRanges (h : p.HasFiniteTimes) :
    InOrder p.shown p.cutRanges := by
  have hsort := inOrder_sort fun r hr =>
    isNaN_of_isFinite (h.ranges_before_sort r hr).1
  simp only [List.isEmpty_iff] at hsort
  rw [cutRanges_eq h, shown]
  have hranges : p.ranges = Range.sort
      (if p.enabledRanges = [] then [p.whole] else p.enabledRanges) := by
    simp only [← List.isEmpty_iff]
    rfl
  rw [hranges]
  exact hsort.filter _

theorem tiles_piecesOf (h : p.HasFiniteTimes) {r : Range}
    (hr : r ∈ p.cutRanges) :
    Tiles r ((p.edits.piecesOf r).map Piece.range) := by
  obtain ⟨hmem, hlt⟩ := (mem_cutRanges h).1 hr
  rw [Edits.map_range_piecesOf]
  exact tiles_cuts h.allFinite_bounds (h.ranges r hmem) (value_lt_value.1 hlt)

theorem cutPieces_eq_nil (h : p.HasFiniteTimes) :
    p.cutPieces = [] ↔ p.cutRanges = [] := by
  rw [cutPieces_eq]
  refine ⟨fun hnone => ?_, fun hnone => by rw [hnone]; rfl⟩
  rw [List.eq_nil_iff_forall_not_mem]
  intro r hr
  refine (tiles_piecesOf h hr).ne_nil ?_
  rw [List.map_eq_nil_iff]
  exact List.flatten_eq_nil_iff.1 hnone _ (List.mem_map_of_mem hr)

theorem pieces_of_ne_nil (h : p.HasFiniteTimes) (hne : p.cutRanges ≠ []) :
    p.pieces = (p.cutRanges.map p.edits.piecesOf).flatten := by
  rw [← cutPieces_eq, pieces, if_neg]
  rw [List.isEmpty_iff, cutPieces_eq_nil h]
  exact hne

theorem sum_length_flatten {order : List Range} {chains : List (List Piece)}
    (h : List.Forall₂ (fun r chain => Tiles r (chain.map Piece.range))
      order chains) :
    (chains.flatten.map fun q => q.range.length).sum =
      (order.map Range.length).sum := by
  induction h with
  | nil => rfl
  | cons htiles _ ih =>
      have hsum := htiles.sum_length
      rw [List.map_map] at hsum
      rw [List.flatten_cons, List.map_append, List.sum_append, ih,
        List.map_cons, List.sum_cons, ← hsum]
      rfl

/-- The pieces of an export tile the enabled segments, taken in order of their
start, whatever effects there are; when no segment is enabled they tile the
recording. -/
theorem pieces_tile (p : Project) (h : p.HasFiniteTimes) :
    ∃ order chains, p.CutInto order chains := by
  have htiled : List.Forall₂ (fun r chain => Tiles r (chain.map Piece.range))
      p.cutRanges (p.cutRanges.map p.edits.piecesOf) := by
    rw [List.forall₂_map_right_iff, List.forall₂_same]
    exact fun r hr => tiles_piecesOf h hr
  refine ⟨p.cutRanges, p.cutRanges.map p.edits.piecesOf, ?_⟩
  refine
    { sorted := inOrder_cutRanges h
      tiled := htiled
      joined := pieces_of_ne_nil h
      plain := fun hnone => ?_
      lengths := fun hne => ?_
      within := fun hne q hq => ?_ }
  · rw [pieces, if_pos (List.isEmpty_iff.2 ((cutPieces_eq_nil h).2 hnone))]
  · rw [pieces_of_ne_nil h hne]
    exact sum_length_flatten htiled
  · rw [pieces_of_ne_nil h hne, ← List.flatMap_def] at hq
    obtain ⟨r, hr, hmem⟩ := List.mem_flatMap.1 hq
    obtain ⟨hlow, _, hhigh⟩ := (tiles_piecesOf h hr).within q.range
      (List.mem_map_of_mem hmem)
    exact ⟨r, hr, hlow, hhigh⟩

/-- A recording of the screen alone, with segments and changes of speed. -/
def screenOnly (duration : Binary64) (segments : List Segment)
    (speed : List SpeedEffect) : Project where
  id := .null
  name := .null
  screen := .text "screen.mp4"
  camera := .null
  microphone := .null
  cameraOffset := .null
  microphoneOffset := .null
  duration := duration
  resolution := ⟨1920, 1080⟩
  createdAt := default
  edits := ⟨segments, [], speed, [], ⟨.topLeft, 0, 1, 0, 0⟩, ⟨1, 1⟩⟩

theorem screenOnly_hasFiniteTimes {duration : Binary64}
    {segments : List Segment} {speed : List SpeedEffect}
    (hduration : duration.isFinite = true)
    (hsegments : ∀ s ∈ segments, s.start.isFinite = true ∧ s.stop.isFinite = true)
    (hspeed : ∀ e ∈ speed, e.start.isFinite = true ∧ e.stop.isFinite = true) :
    (screenOnly duration segments speed).HasFiniteTimes :=
  ⟨hduration, hsegments, hspeed, fun _ h => nomatch h⟩

/-- Segments out of order, one of them disabled. -/
theorem pieces_tile_out_of_order :
    (screenOnly 10
      [⟨.null, 6, 9, true⟩, ⟨.null, 4, 6, false⟩, ⟨.null, 1, 4, true⟩]
      [⟨.null, 2, 7, 2⟩]).HasFiniteTimes ∧
    ∃ order chains, (screenOnly 10
      [⟨.null, 6, 9, true⟩, ⟨.null, 4, 6, false⟩, ⟨.null, 1, 4, true⟩]
      [⟨.null, 2, 7, 2⟩]).CutInto order chains := by
  have hfin : (screenOnly 10
      [⟨.null, 6, 9, true⟩, ⟨.null, 4, 6, false⟩, ⟨.null, 1, 4, true⟩]
      [⟨.null, 2, 7, 2⟩]).HasFiniteTimes := by
    refine screenOnly_hasFiniteTimes (by decide +kernel) ?_ ?_
    · simp only [List.forall_mem_cons]
      decide +kernel
    · simp only [List.forall_mem_cons]
      decide +kernel
  exact ⟨hfin, pieces_tile _ hfin⟩

/-- With no segment enabled the recording is not always one plain piece: it is
cut where an effect begins and ends. -/
theorem pieces_none_enabled :
    (screenOnly 10 [] [⟨.null, 2, 4, 2⟩]).HasFiniteTimes ∧
    (screenOnly 10 [] [⟨.null, 2, 4, 2⟩]).enabledRanges = [] ∧
    (screenOnly 10 [] [⟨.null, 2, 4, 2⟩]).pieces =
      [⟨0, 2, 1, none⟩, ⟨2, 4, 2, none⟩, ⟨4, 10, 1, none⟩] ∧
    (screenOnly 10 [] [⟨.null, 2, 4, 2⟩]).pieces ≠ [⟨0, 10, 1, none⟩] := by
  have hpieces : (screenOnly 10 [] [⟨.null, 2, 4, 2⟩]).pieces =
      [⟨0, 2, 1, none⟩, ⟨2, 4, 2, none⟩, ⟨4, 10, 1, none⟩] := by
    have hranges : (screenOnly 10 [] [⟨.null, 2, 4, 2⟩]).ranges = [⟨0, 10⟩] :=
      Range.sort_of_sorted (by decide +kernel) (List.pairwise_singleton _ _)
    rw [pieces, cutPieces, hranges, Edits.piecesOf_of_sorted (by decide +kernel)]
    decide +kernel
  refine ⟨screenOnly_hasFiniteTimes (by decide +kernel) ?_ ?_, rfl, hpieces, ?_⟩
  · exact fun _ h => nomatch h
  · simp only [List.forall_mem_cons]
    decide +kernel
  · rw [hpieces]
    decide +kernel

end Project

end Cutlist
