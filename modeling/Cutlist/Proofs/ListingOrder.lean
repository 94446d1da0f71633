import Cutlist.Export.Plan
import Cutlist.Proofs.SourceOrder
import Cutlist.Proofs.ZeroSigns
import Mathlib.Data.List.Find

/-!
# Edits in another order

The order in which edits are listed means nothing as long as nobody has to ask
which of two comes first. Enabled segments are shown in order of their starts,
and where no two start together there is only one such order. Of speed effects
that have no instant in common one at most covers an instant, so the first that
does is the only one. With zooms it is the same, but only among those that
enlarge: the others may lie across them, since they are passed over.

The bounds of effects are put in order before a range is cut at them, and then
they are the same instants whatever order they came in. What is left of that
order is the sign of a zero: two zeros count as the same instant and stay as they
came. So pieces are the same up to such signs, and what is decided from them is
the same altogether.
-/

namespace Cutlist

open Binary64 Timeline Export Render

def SpeedEffect.range (s : SpeedEffect) : Range := ⟨s.start, s.stop⟩

def ZoomEffect.range (z : ZoomEffect) : Range := ⟨z.start, z.stop⟩

/-- No instant is held by both of two ranges. One that ends where it starts, or
before, holds none and shares none. -/
def Range.Disjoint (a b : Range) : Prop :=
  ∀ t, ¬ (a.holds t = true ∧ b.holds t = true)

/-- Ranges that do not reach into one another have no instant in common. -/
theorem Range.Apart.disjoint {a b : Range} (h : a.Apart b) : a.Disjoint b := by
  intro t ⟨ha, hb⟩
  rw [Range.holds_iff] at ha hb
  rcases h with hab | hba
  · exact absurd (lt_of_lt_of_le ha.2 hab) (not_lt_of_ge hb.1)
  · exact absurd (lt_of_lt_of_le hb.2 hba) (not_lt_of_ge ha.1)

/-- The same edits in another order: segments in any, with other disabled ones,
and effects in another only if no two of those that count have an instant in
common. -/
structure Edits.Relisted (e e' : Edits) : Prop where
  segments : (e'.segments.filter (·.enabled)).Perm (e.segments.filter (·.enabled))
  speed : e'.speed = e.speed ∨ e'.speed.Perm e.speed ∧
    e.speed.Pairwise fun a b => a.range.Disjoint b.range
  zoom : e'.zoom = e.zoom ∨ e'.zoom.Perm e.zoom ∧
    (e.zoom.filter fun z => decide (1 < z.scale)).Pairwise
      fun a b => a.range.Disjoint b.range
  annotations : e'.annotations = e.annotations
  overlay : e'.overlay = e.overlay
  mix : e'.mix = e.mix

/-! ## The first is the only one -/

/-- Where no two are found, it does not matter which is looked at first. -/
theorem find?_eq_of_pairwise {α : Type} {keep : α → Bool} {xs ys : List α}
    (hperm : ys.Perm xs)
    (h : xs.Pairwise fun a b => ¬ (keep a = true ∧ keep b = true)) :
    ys.find? keep = xs.find? keep := by
  refine (List.find?_eq_find?_of_perm hperm.symm fun a ha b hb => ?_).symm
  have : Std.Symm fun a b => ¬ (keep a = true ∧ keep b = true) :=
    ⟨fun a b hab hba => hab hba.symm⟩
  by_contra hne
  exact h.forall ha.1 hb.1 hne ⟨ha.2, hb.2⟩

namespace Timeline

/-- What covers a time holds the instant that the time stands for. -/
theorem holds_of_covers {r : Range} {time : Binary64} (hr : r.IsFinite)
    (h : covers r.start r.stop time = true) : r.holds time.value = true := by
  rw [covers, Bool.and_eq_true, decide_eq_true_iff, decide_eq_true_iff] at h
  have hnan : time.isNaN = false := by
    cases time with
    | nan =>
        have hle : AtMost r.start .nan := h.1
        rw [AtMost, rank_eq_ticks (isNaN_of_isFinite hr.1)] at hle
        exact hle.elim
    | finite => rfl
    | infinite => rfl
  rw [le_iff_ticks (isNaN_of_isFinite hr.1) hnan,
    lt_iff_ticks hnan (isNaN_of_isFinite hr.2)] at h
  exact Range.holds_iff.2 ⟨value_le_value.2 h.1, value_lt_value.2 h.2⟩

/-- Of ranges without a common instant at most one covers a time. -/
theorem pairwise_covers {α : Type} {range : α → Range} {xs : List α}
    (hfin : ∀ x ∈ xs, (range x).IsFinite)
    (h : xs.Pairwise fun a b => (range a).Disjoint (range b)) (time : Binary64) :
    xs.Pairwise fun a b => ¬ (covers (range a).start (range a).stop time = true ∧
      covers (range b).start (range b).stop time = true) :=
  h.imp_of_mem fun ha hb hab ⟨hcovers, hcovers'⟩ => hab _
    ⟨holds_of_covers (hfin _ ha) hcovers, holds_of_covers (hfin _ hb) hcovers'⟩

theorem speedAt_of_perm {xs ys : List SpeedEffect} (hperm : ys.Perm xs)
    (hfin : ∀ s ∈ xs, s.range.IsFinite)
    (h : xs.Pairwise fun a b => a.range.Disjoint b.range) (time : Binary64) :
    speedAt ys time = speedAt xs time := by
  have hone : xs.Pairwise fun a b => ¬ (covers a.start a.stop time = true ∧
      covers b.start b.stop time = true) := pairwise_covers hfin h time
  rw [speedAt, speedAt, find?_eq_of_pairwise hperm hone]

theorem zoomAt_of_perm {xs ys : List ZoomEffect} (hperm : ys.Perm xs)
    (hfin : ∀ z ∈ xs, z.range.IsFinite)
    (h : (xs.filter fun z => decide (1 < z.scale)).Pairwise
      fun a b => a.range.Disjoint b.range) (time : Binary64) :
    zoomAt ys time = zoomAt xs time := by
  have hone := pairwise_covers
    (fun z hz => hfin z (List.mem_filter.1 hz).1) h time
  rw [List.pairwise_filter] at hone
  rw [zoomAt, zoomAt, find?_eq_of_pairwise hperm]
  refine hone.imp fun {a b} hab hboth => ?_
  simp only [Bool.and_eq_true] at hboth
  exact hab hboth.1.2 hboth.2.2 ⟨hboth.1.1, hboth.2.1⟩

theorem covers_alike {t t' : Binary64} (h : t.Alike t') (start stop : Binary64) :
    covers start stop t = covers start stop t' := by
  rw [covers, covers, decide_eq_decide.2 ((Alike.same start).le_iff h),
    decide_eq_decide.2 (h.lt_iff (.same stop))]

theorem speedAt_alike {t t' : Binary64} (h : t.Alike t') (xs : List SpeedEffect) :
    speedAt xs t = speedAt xs t' := by
  simp only [speedAt, covers_alike h]

theorem zoomAt_alike {t t' : Binary64} (h : t.Alike t') (xs : List ZoomEffect) :
    zoomAt xs t = zoomAt xs t' := by
  simp only [zoomAt, covers_alike h]

/-! ## Cuts -/

theorem forall₂_alike_of_ticks {xs ys : List Binary64} (hxs : AllFinite xs)
    (hys : AllFinite ys) (h : xs.map ticks = ys.map ticks) :
    List.Forall₂ Alike xs ys := by
  induction xs generalizing ys with
  | nil =>
      obtain rfl := List.map_eq_nil_iff.1 h.symm
      exact .nil
  | cons x xs ih =>
      cases ys with
      | nil => cases h
      | cons y ys =>
          rw [List.map_cons, List.map_cons, List.cons.injEq] at h
          exact .cons (alike_of_ticks_eq hxs.head hys.head h.1)
            (ih hxs.tail hys.tail h.2)

section Bounds

variable {bounds bounds' : List Binary64} {r : Range}

/-- Put in order, the same bounds are the same instants. -/
theorem inside_alike (hb : AllFinite bounds) (hperm : bounds'.Perm bounds) :
    List.Forall₂ Alike (inside bounds' r) (inside bounds r) := by
  have hb' : AllFinite bounds' := fun t ht => hb t (hperm.mem_iff.1 ht)
  have sorted {ts : List Binary64} (hts : AllFinite ts) :
      ((inside ts r).map ticks).Pairwise (· ≤ ·) := by
    refine List.pairwise_map.2 (pairwise_mergeSort_ticks id fun t ht => ?_)
    exact isNaN_of_isFinite (hts t (List.mem_filter.1 ht).1)
  have hinside : (inside bounds' r).Perm (inside bounds r) :=
    (List.mergeSort_perm ..).trans
      ((hperm.filter _).trans (List.mergeSort_perm ..).symm)
  refine forall₂_alike_of_ticks (allFinite_inside hb') (allFinite_inside hb) ?_
  exact (hinside.map ticks).eq_of_pairwise (fun _ _ _ _ => Int.le_antisymm)
    (sorted hb') (sorted hb)

theorem spread_alike {xs ys : List Binary64} (h : List.Forall₂ Alike xs ys)
    {last last' : Binary64} (hlast : last.Alike last') :
    List.Forall₂ Alike (spread last xs) (spread last' ys) := by
  -- Which cut was kept last is not known in advance, only that both kept it.
  induction h generalizing last last' with
  | nil => exact .nil
  | cons hxy _ ih =>
      have hfar := (Alike.same gap).le_iff (hxy.sub hlast)
      rw [spread, spread]
      split
      · next hgap =>
          rw [if_pos (hfar.1 hgap)]
          exact .cons hxy (ih hxy)
      · next hgap =>
          rw [if_neg fun hgap' => hgap (hfar.2 hgap')]
          exact ih hlast

theorem cuts_alike (hb : AllFinite bounds) (hperm : bounds'.Perm bounds) :
    List.Forall₂ Alike (cuts bounds' r) (cuts bounds r) := by
  rw [cuts_eq, cuts_eq]
  refine List.rel_append (.cons (.same _) ?_) (.cons (.same _) .nil)
  exact spread_alike (inside_alike hb hperm) (.same _)

end Bounds

/-- Of two zeros the one that comes first is cut at. -/
example : cuts [zero false, zero true] ⟨-1, 1⟩ = [-1, zero false, 1] ∧
    cuts [zero true, zero false] ⟨-1, 1⟩ = [-1, zero true, 1] := by
  rw [cuts_of_sorted (by decide +kernel), cuts_of_sorted (by decide +kernel)]
  decide +kernel

end Timeline

/-- The same range, but for the sign of a zero. -/
structure Range.Alike (a b : Range) : Prop where
  start : a.start.Alike b.start
  stop : a.stop.Alike b.stop

/-- The same piece, but for the sign of a zero at its ends. -/
structure Piece.Alike (a b : Piece) : Prop where
  start : a.start.Alike b.start
  stop : a.stop.Alike b.stop
  speed : a.speed = b.speed
  zoom : a.zoom = b.zoom

theorem Piece.Alike.refl (a : Piece) : a.Alike a :=
  ⟨.same _, .same _, rfl, rfl⟩

theorem Timeline.between_alike {xs ys : List Binary64}
    (h : List.Forall₂ Binary64.Alike xs ys) :
    List.Forall₂ Range.Alike (between xs) (between ys) := by
  induction h with
  | nil => exact .nil
  | cons hxy hrest ih =>
      cases hrest with
      | nil => exact .nil
      | cons hnext _ =>
          rw [between_pair, between_pair]
          split
          · next hle =>
              rw [if_pos ((hnext.le_iff hxy).1 hle)]
              exact ih
          · next hle =>
              rw [if_neg fun hle' => hle ((hnext.le_iff hxy).2 hle')]
              exact .cons ⟨hxy, hnext⟩ ih

/-! ## Pieces -/

namespace Edits

variable {e e' : Edits}

theorem Relisted.speed_perm (h : e.Relisted e') : e'.speed.Perm e.speed := by
  rcases h.speed with heq | ⟨hperm, _⟩
  · rw [heq]
  · exact hperm

theorem Relisted.zoom_perm (h : e.Relisted e') : e'.zoom.Perm e.zoom := by
  rcases h.zoom with heq | ⟨hperm, _⟩
  · rw [heq]
  · exact hperm

theorem Relisted.bounds_perm (h : e.Relisted e') : e'.bounds.Perm e.bounds :=
  (h.speed_perm.flatMap_right _).append (h.zoom_perm.flatMap_right _)

end Edits

namespace Range

/-- Ranges of which no two start together have one order of their starts. -/
theorem sort_of_perm {xs ys : List Range} (hperm : ys.Perm xs)
    (hnan : ∀ x ∈ xs, x.start.isNaN = false)
    (hstarts : xs.Pairwise fun a b => a.start.value ≠ b.start.value) :
    sort ys = sort xs := by
  have hxs := inOrder_sort hnan
  have hys := inOrder_sort fun y hy => hnan y (hperm.mem_iff.1 hy)
  have : Std.Symm fun a b : Range => a.start.value ≠ b.start.value :=
    ⟨fun _ _ h => h.symm⟩
  refine ((hys.perm.trans hperm).trans hxs.perm.symm).eq_of_pairwise
    (fun a b ha hb hab hba => ?_) hys.rising hxs.rising
  by_contra hne
  have ha' := hperm.mem_iff.1 (hys.perm.mem_iff.1 ha)
  exact hstarts.forall ha' (hxs.perm.mem_iff.1 hb) hne (le_antisymm hab hba)

end Range

namespace Project

/-- A project with other edits. -/
def withEdits (p : Project) (e : Edits) : Project := { p with edits := e }

variable {p : Project} {e : Edits}

section Relisted

variable (h : p.HasFiniteTimes) (he : p.edits.Relisted e)

include h he

theorem ranges_relisted
    (hstarts : p.enabledRanges.Pairwise fun a b =>
      a.start.value ≠ b.start.value) :
    (p.withEdits e).ranges = p.ranges := by
  have hperm : (p.withEdits e).enabledRanges.Perm p.enabledRanges :=
    he.segments.map _
  have hsort := Range.sort_of_perm
    hperm (fun r hr => isNaN_of_isFinite (h.enabledRanges r hr).1) hstarts
  show Range.sort (if (p.withEdits e).enabledRanges.isEmpty then [p.whole]
    else (p.withEdits e).enabledRanges) = Range.sort
      (if p.enabledRanges.isEmpty then [p.whole] else p.enabledRanges)
  rw [hperm.isEmpty_eq]
  split
  · rfl
  · exact hsort

theorem speedAt_relisted (time : Binary64) :
    speedAt e.speed time = speedAt p.edits.speed time := by
  rcases he.speed with heq | ⟨hperm, halone⟩
  · rw [heq]
  · exact speedAt_of_perm hperm h.speed halone time

theorem zoomAt_relisted (time : Binary64) :
    zoomAt e.zoom time = zoomAt p.edits.zoom time := by
  rcases he.zoom with heq | ⟨hperm, halone⟩
  · rw [heq]
  · exact zoomAt_of_perm hperm h.zoom halone time

theorem piecesOf_relisted (r : Range) :
    List.Forall₂ Piece.Alike (e.piecesOf r) (p.edits.piecesOf r) := by
  rw [Edits.piecesOf, Edits.piecesOf, List.forall₂_map_left_iff,
    List.forall₂_map_right_iff]
  refine (between_alike (cuts_alike h.allFinite_bounds he.bounds_perm)).imp
    fun a b hab => ⟨hab.start, hab.stop, ?_, ?_⟩
  · exact (speedAt_alike hab.start _).trans (speedAt_relisted h he _)
  · exact (zoomAt_alike hab.start _).trans (zoomAt_relisted h he _)

theorem pieces_relisted
    (hstarts : p.enabledRanges.Pairwise fun a b =>
      a.start.value ≠ b.start.value) :
    List.Forall₂ Piece.Alike (p.withEdits e).pieces p.pieces := by
  have hcut : List.Forall₂ Piece.Alike (p.withEdits e).cutPieces p.cutPieces := by
    rw [cutPieces_eq, cutPieces_eq]
    refine List.rel_flatten ?_
    have hranges : (p.withEdits e).cutRanges = p.cutRanges := by
      rw [cutRanges, ranges_relisted h he hstarts, cutRanges]
    rw [hranges, List.forall₂_map_left_iff, List.forall₂_map_right_iff,
      List.forall₂_same]
    exact fun r _ => piecesOf_relisted h he r
  -- With nothing cut, both stay the same plain piece.
  rw [pieces, pieces]
  generalize (p.withEdits e).cutPieces = xs at hcut
  generalize p.cutPieces = ys at hcut
  cases hcut with
  | nil => exact .cons (.refl _) .nil
  | cons hpiece hrest => exact .cons hpiece hrest

end Relisted

end Project

/-! ## What is decided from pieces -/

section Decided

variable {xs ys : List Piece}

theorem Timeline.isEdited_alike (h : List.Forall₂ Piece.Alike xs ys) (r : Range) :
    isEdited xs r = isEdited ys r := by
  cases h with
  | nil => rfl
  | cons hpiece hrest =>
      cases hrest with
      | nil =>
          simp only [isEdited, (hpiece.start.sub (.same r.start)).abs_eq,
            (hpiece.stop.sub (.same r.stop)).abs_eq, hpiece.speed, hpiece.zoom]
      | cons _ _ => rfl

theorem Render.Sound.isUntouched_alike (h : List.Forall₂ Piece.Alike xs ys)
    (duration : Option Binary64) :
    isUntouched xs duration = isUntouched ys duration := by
  cases h with
  | nil => rfl
  | cons hpiece hrest =>
      cases hrest with
      | nil =>
          have hstop (d : Binary64) := (hpiece.stop.sub (.same d)).abs_eq
          simp only [isUntouched, hstop, hpiece.speed,
            decide_eq_decide.2 (hpiece.start.le_iff (.same timeTolerance))]
      | cons _ _ => rfl

end Decided

/-- A plan with other pieces. -/
def Export.Plan.withPieces (plan : Plan) (pieces : List Piece) : Plan :=
  { plan with pieces := pieces }

/-- Of what an export reads, only the pieces are not quite the same. -/
theorem Export.Plan.ofProject_relisted {p : Project} {e : Edits}
    (h : p.HasFiniteTimes) (he : p.edits.Relisted e)
    (hstarts : p.enabledRanges.Pairwise fun a b => a.start.value ≠ b.start.value)
    (screenHasAudio : Bool) :
    Plan.ofProject (p.withEdits e) screenHasAudio =
      (Plan.ofProject p screenHasAudio).withPieces (p.withEdits e).pieces := by
  have hedited := isEdited_alike (Project.pieces_relisted h he hstarts)
  have hzoom : e.zoom.isEmpty = p.edits.zoom.isEmpty := he.zoom_perm.isEmpty_eq
  have hplain : isPlainStretch (p.withEdits e) = isPlainStretch p := by
    funext r
    rw [isPlainStretch, hedited r]
    show (_ && e.zoom.isEmpty && e.annotations.isEmpty &&
      decide ((e.mix.system - 1).abs < Sound.gainTolerance)) = _
    rw [hzoom, he.annotations, he.mix]
    rfl
  rw [Plan.ofProject, hplain, hedited, Project.ranges_relisted h he hstarts]
  rfl

end Cutlist
