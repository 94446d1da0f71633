import Cutlist.Proofs.Moments

/-!
# Which moments annotations are drawn on

An annotation is tied to a time of the recording. Its window is written with
that time, and is compared with the time of the export once the recording is
cut. So an annotation is seen in time where the export leaves moments where
they are, and elsewhere at the moments that happen to be shown in its window.
-/

namespace Cutlist

open FilterGraph Render Export Footage Binary64 Timeline

/-- What two times may differ by as they are written. -/
noncomputable def slack : ℝ := 1 / 10 ^ 6

theorem Binary64.abs_written_sub_value_le_slack {x : Binary64}
    (hx : x.isFinite = true) : |(x.written 6 : ℝ) - x.value| ≤ slack := by
  have hnear : |((x.written 6 - x.value : ℚ) : ℝ)| ≤
      ((1 / (2 * 10 ^ 6) : ℚ) : ℝ) := by
    rw [← Rat.cast_abs]
    exact_mod_cast abs_written_sub_value_le 6 hx
  rw [Rat.cast_sub] at hnear
  refine le_trans hnear ?_
  rw [slack]
  norm_num

namespace Binary64

variable {a b : Binary64}

theorem greater_finite (ha : a.isFinite = true) (hb : b.isFinite = true) :
    (a.greater b).isFinite = true ∧
      (a.greater b).value = max a.value b.value := by
  rw [greater]
  split
  · next h =>
      rw [lt_iff_value (isNaN_of_isFinite ha) (isNaN_of_isFinite hb)] at h
      exact ⟨hb, (max_eq_right h.le).symm⟩
  · next h =>
      rw [lt_iff_value (isNaN_of_isFinite ha) (isNaN_of_isFinite hb)] at h
      exact ⟨ha, (max_eq_left (le_of_not_gt h)).symm⟩

theorem lesser_finite (ha : a.isFinite = true) (hb : b.isFinite = true) :
    (a.lesser b).isFinite = true ∧
      (a.lesser b).value = min a.value b.value := by
  rw [lesser]
  split
  · next h =>
      rw [lt_iff_value (isNaN_of_isFinite hb) (isNaN_of_isFinite ha)] at h
      exact ⟨hb, (min_eq_right h.le).symm⟩
  · next h =>
      rw [lt_iff_value (isNaN_of_isFinite hb) (isNaN_of_isFinite ha)] at h
      exact ⟨ha, (min_eq_left (le_of_not_gt h)).symm⟩

end Binary64

/-- The drawings of an annotation are seen while the export shows the time of
the recording that the annotation is tied to, and at no other time. -/
structure InTime (p : Project) (a : Annotation) (shown : Footage) : Prop where
  drawn : ∀ f ∈ Picture.drawings p.duration a, ∀ t u, p.Renders t u →
    a.start.value + slack ≤ t → slack ≤ t → t + slack ≤ a.stop.value →
    t + slack ≤ p.duration.value → (u, .drawing f) ∈ shown
  only : ∀ f ∈ Picture.drawings p.duration a, ∀ t u, p.Renders t u →
    (u, .drawing f) ∈ shown →
    a.start.value ≤ t + slack ∧ t ≤ a.stop.value + slack

section Windows

variable {a : Annotation} {duration : Binary64} {u : ℝ}

/-- A window is that of its annotation inside the recording, but for what is
lost when it is written. -/
theorem Render.Picture.mem_window (hstart : a.start.isFinite = true)
    (hstop : a.stop.isFinite = true) (hduration : duration.isFinite = true) :
    (u ∈ (Picture.window a duration).written →
      max (a.start.value : ℝ) 0 ≤ u + slack ∧
        u ≤ min (a.stop.value : ℝ) duration.value + slack) ∧
    (max (a.start.value : ℝ) 0 + slack ≤ u →
      u + slack ≤ min (a.stop.value : ℝ) duration.value →
      u ∈ (Picture.window a duration).written) := by
  have hzero : (0 : Binary64).isFinite = true := by decide +kernel
  obtain ⟨hlow, hlowValue⟩ := greater_finite hstart hzero
  obtain ⟨hhigh, hhighValue⟩ := lesser_finite hstop hduration
  have hlowNear := abs_le.1 (abs_written_sub_value_le_slack hlow)
  have hhighNear := abs_le.1 (abs_written_sub_value_le_slack hhigh)
  rw [hlowValue, value_zero, Rat.cast_max, Rat.cast_zero] at hlowNear
  rw [hhighValue, Rat.cast_min] at hhighNear
  rw [Window.written, Set.mem_Icc, Picture.window]
  constructor
  · rintro ⟨hbegin, hend⟩
    exact ⟨by linarith [hlowNear.1], by linarith [hhighNear.2]⟩
  · intro hbegin hend
    exact ⟨by linarith [hlowNear.2], by linarith [hhighNear.1]⟩

end Windows

section Moments

variable {p : Project} {options : Options} {screenHasAudio : Bool}

/-- Where moments are shown at their own time, an annotation is seen in time. -/
theorem inTime_of_keepsTime {a : Annotation} {shown : Footage}
    (hkeeps : p.KeepsTime) (hstart : a.start.isFinite = true)
    (hstop : a.stop.isFinite = true) (hduration : p.duration.isFinite = true)
    (hshown : ∀ f ∈ Picture.drawings p.duration a, ∀ t u, p.Renders t u →
      ((u, .drawing f) ∈ shown ↔ u ∈ (Picture.window a p.duration).written)) :
    InTime p a shown := by
  constructor
  · intro f hf t u ht hbegin hpos hend hlast
    rw [hshown f hf t u ht, ← hkeeps t u ht]
    refine (Picture.mem_window hstart hstop hduration).2 ?_ ?_
    · rw [← max_add_add_right]
      exact max_le hbegin (by rwa [zero_add])
    · exact le_min hend hlast
  · intro f hf t u ht hseen
    rw [hshown f hf t u ht, ← hkeeps t u ht] at hseen
    obtain ⟨hbegin, hend⟩ :=
      (Picture.mem_window hstart hstop hduration).1 hseen
    refine ⟨(le_max_left _ _).trans hbegin, hend.trans ?_⟩
    exact add_le_add_left (min_le_left _ _) slack

/-- The drawings of an annotation are seen while its window contains the time of
the export. Where that is the time of the recording which is shown, the
annotation is seen in time. -/
theorem annotations_at_export_time (p : Project) (options : Options)
    (screenHasAudio : Bool) (hfinite : p.HasFiniteEdits)
    (hspeeds : ∀ e ∈ p.edits.speed, 0 < e.speed)
    (hkind : options.format.kind ≠ .sound)
    (hannotated : p.edits.annotations ≠ []) :
    Meets (¬ p.Usable)
      (Graph.build p options (Plan.ofProject p screenHasAudio)) {} fun out g =>
        (∀ t u, (u, .picture 0 t) ∈ footage g.chains out.shown ↔
          p.Renders t u) ∧
        ∀ a ∈ p.edits.annotations,
          (∀ f ∈ Picture.drawings p.duration a, ∀ t u, p.Renders t u →
            ((u, .drawing f) ∈ footage g.chains out.shown ↔
              u ∈ (Picture.window a p.duration).written)) ∧
          (a.start.isFinite = true → a.stop.isFinite = true → p.KeepsTime →
            InTime p a (footage g.chains out.shown)) := by
  refine (Graph.build_showsPicture hfinite hspeeds hkind
    (Plan.not_fast_of_annotations hannotated)).imp
    fun out g ⟨_, _, hshown⟩ => ⟨hshown.screen, fun a ha => ?_⟩
  have hseen : ∀ f ∈ Picture.drawings p.duration a, ∀ t u, p.Renders t u →
      ((u, .drawing f) ∈ footage g.chains out.shown ↔
        u ∈ (Picture.window a p.duration).written) :=
    fun f hf t u ht => hshown.drawing_iff ha hf ht
  exact ⟨hseen, fun hstart hstop hkeeps => inTime_of_keepsTime hkeeps hstart
    hstop hfinite.toHasFiniteTimes.duration hseen⟩

/-- A rectangle from second 6 to second 8 of the recording. -/
def rectangle : Annotation :=
  ⟨.null, 6, 8, 0.1, 0.1, 0.2, 0.2, .text "red", 1, 4, .text ""⟩

/-- A recording with a rectangle in it, of which the segments are shown. -/
def marked (segments : List Segment) : Project :=
  let plain := Project.screenOnly 20 segments []
  { plain with edits := { plain.edits with annotations := [rectangle] } }

theorem marked_hasFiniteEdits {segments : List Segment}
    (h : ∀ s ∈ segments, s.start.isFinite = true ∧ s.stop.isFinite = true) :
    (marked segments).HasFiniteEdits :=
  ⟨⟨show (20 : Binary64).isFinite = true by decide +kernel, h,
    (fun _ h => nomatch h), (fun _ h => nomatch h)⟩, fun _ h => nomatch h⟩

theorem pieces_marked_whole : (marked []).pieces = [⟨0, 20, 1, none⟩] := by
  have hranges : (marked []).ranges = [⟨0, 20⟩] :=
    Range.sort_of_sorted (by decide +kernel) (List.pairwise_singleton _ _)
  rw [Project.pieces, Project.cutPieces, hranges,
    Edits.piecesOf_of_sorted (by decide +kernel)]
  decide +kernel

/-- Nothing is cut out of this recording, and its rectangle is seen in time. -/
theorem annotations_at_export_time_whole :
    (marked []).HasFiniteEdits ∧ (marked []).edits.annotations ≠ [] ∧
    rectangle.start.isFinite = true ∧ rectangle.stop.isFinite = true ∧
    (marked []).KeepsTime ∧ Meets (¬ (marked []).Usable)
      (Graph.build (marked []) {} (Plan.ofProject (marked []) false)) {}
      fun out g => InTime (marked []) rectangle (footage g.chains out.shown) := by
  have hfinite : (marked []).HasFiniteEdits :=
    marked_hasFiniteEdits fun _ h => nomatch h
  have hannotated : (marked []).edits.annotations ≠ [] := List.cons_ne_nil _ _
  have hstart : rectangle.start.isFinite = true := by decide +kernel
  have hstop : rectangle.stop.isFinite = true := by decide +kernel
  have hkeeps : (marked []).KeepsTime := by
    refine Project.keepsTime_of_not_edited ?_
    rw [pieces_marked_whole]
    decide +kernel
  exact ⟨hfinite, hannotated, hstart, hstop, hkeeps,
    (annotations_at_export_time (marked []) {} false hfinite
      (fun _ h => nomatch h) (by decide) hannotated).imp fun _ _ ⟨_, hall⟩ =>
        (hall rectangle (List.mem_cons_self ..)).2 hstart hstop hkeeps⟩

theorem usable_marked (segments : List Segment) : (marked segments).Usable := by
  have hunset : Offset.Readable .null := by
    refine ⟨_, rfl, ?_⟩
    decide +kernel
  refine ⟨hunset, hunset, ?_, ?_⟩
  · simp only [marked, List.forall_mem_cons]
    decide
  · simp only [marked, List.forall_mem_cons]
    decide

/-- The middle of a recording. -/
def middle : List Segment := [⟨.null, 5, 15, true⟩]

theorem pieces_marked_middle : (marked middle).pieces = [⟨5, 15, 1, none⟩] := by
  have hranges : (marked middle).ranges = [⟨5, 15⟩] :=
    Range.sort_of_sorted (by decide +kernel) (List.pairwise_singleton _ _)
  rw [Project.pieces, Project.cutPieces, hranges,
    Edits.piecesOf_of_sorted (by decide +kernel)]
  decide +kernel

theorem renders_marked_middle : (marked middle).Renders 7 2 := by
  have hedited : isEdited (marked middle).pieces (marked middle).whole =
      true := by
    rw [pieces_marked_middle]
    decide +kernel
  have hstart : (5 : Binary64).value = (5 : Int) :=
    value_of_ticks (by decide +kernel)
  have hstop : (15 : Binary64).value = (15 : Int) :=
    value_of_ticks (by decide +kernel)
  rw [Project.Renders, if_pos hedited, pieces_marked_middle, plays_single,
    Contains, hstart, hstop, value_one]
  norm_num

/-- Second 7 of the recording is shown at second 2 of the export, where its
rectangle is not seen: its window was written for seconds 6 to 8 of the
export. -/
theorem rectangle_not_in_time :
    rectangle ∈ (marked middle).edits.annotations ∧
    Meets False (Graph.build (marked middle) {}
      (Plan.ofProject (marked middle) false)) {} fun out g =>
        ¬ InTime (marked middle) rectangle (footage g.chains out.shown) := by
  have hfinite : (marked middle).HasFiniteEdits := by
    refine marked_hasFiniteEdits ?_
    simp only [middle, List.forall_mem_cons]
    decide +kernel
  have hannotated : (marked middle).edits.annotations ≠ [] :=
    List.cons_ne_nil _ _
  have hbox := Picture.box_mem_drawings (marked middle).duration rectangle
    (by decide +kernel)
  have hstart : rectangle.start.value = (6 : Int) :=
    value_of_ticks (by decide +kernel)
  have hstop : rectangle.stop.value = (8 : Int) :=
    value_of_ticks (by decide +kernel)
  have hduration : (marked middle).duration.value = (20 : Int) :=
    value_of_ticks (by decide +kernel)
  refine ⟨List.mem_cons_self .., ((Graph.build_showsPicture hfinite
    (fun _ h => nomatch h) (by decide)
    (Plan.not_fast_of_annotations hannotated)).excused
    fun h => h (usable_marked _)).imp fun out g ⟨_, _, hshown⟩ hintime => ?_⟩
  have hseen := hintime.drawn _ hbox 7 2 renders_marked_middle
    (by rw [hstart, slack]; norm_num) (by rw [slack]; norm_num)
    (by rw [hstop, slack]; norm_num) (by rw [hduration, slack]; norm_num)
  rw [hshown.drawing_iff (List.mem_cons_self ..) hbox
    renders_marked_middle] at hseen
  -- At second 2 the window has not begun.
  have hlate := ((Picture.mem_window (by decide +kernel) (by decide +kernel)
    hfinite.toHasFiniteTimes.duration).1 hseen).1
  rw [hstart, slack] at hlate
  norm_num at hlate

end Moments

end Cutlist
