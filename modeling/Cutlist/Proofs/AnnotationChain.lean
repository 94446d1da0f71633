import Cutlist.Proofs.Compiling
import Cutlist.Proofs.DrawnInTime
import Cutlist.Proofs.PrintedOrder

/-!
# Annotations are drawn one behind another

A fold draws the annotations, some with one filter, some with two, and some with
none, and hands on the pad that the last filter ended in. What it adds to a
graph is a thread: each chain takes what the one before it gives. What the
filters are told is decided before they are written, by bounds on every number;
since writing a number keeps its order, and the bounds are written as they are,
the bounds hold of the text.
-/

namespace Cutlist

open FilterGraph Binary64

namespace Render.Picture

variable {duration : Binary64} {a : Annotation}

/-! ## What is drawn -/

theorem not_drawable_of_color (hshown : isBrief (window a duration) = false)
    (hnone : a.color.text? = none) : ¬ Drawable duration a := by
  intro h
  have hcolor := (h hshown).1
  rw [hnone] at hcolor
  cases hcolor

theorem not_drawable_of_caption (hshown : isBrief (window a duration) = false)
    (htext : a.text.truthy = true) (hnone : a.text.text? = none) :
    ¬ Drawable duration a := by
  intro h
  have hcaption := (h hshown).2 htext
  rw [hnone] at hcaption
  cases hcaption

theorem withAnnotations_threads_of_drawable (p : Project) (source : Label) :
    Adds (¬ ∀ a ∈ p.edits.annotations, Drawable p.duration a)
      (withAnnotations source p) fun last new =>
        Threads source (p.edits.annotations.flatMap (drawings p.duration))
          new last :=
  withAnnotations_threads
    (fun a ha hshown hnone hall => not_drawable_of_color hshown hnone (hall a ha))
    (fun a ha hshown htext hnone hall =>
      not_drawable_of_caption hshown htext hnone (hall a ha)) source

/-! ## What the filters are told -/

/-- The numbers that the filters of an annotation are told, as
they are written. -/
structure Told where
  x : String
  y : String
  width : String
  height : String
  opacity : String
  thickness : String
  start : String
  stop : String

namespace Told

def enabled (t : Told) : String := s!"enable='between(t,{t.start},{t.stop})'"

/-- A rectangle in some colour. -/
def box (t : Told) (color : String) : String :=
  s!"drawbox=x=iw*{t.x}:y=ih*{t.y}:w=iw*{t.width}"
    ++ s!":h=ih*{t.height}:color={color}@{t.opacity}:t={t.thickness}:"
    ++ t.enabled

/-- A caption at the corner of the rectangle. -/
def caption (t : Told) (text : String) : String :=
  s!"drawtext=text='{Caption.escaped text}':x=w*{t.x}+10"
    ++ s!":y=h*{t.y}+10:fontsize=28:fontcolor=white@{t.opacity}"
    ++ ":box=1:boxcolor=black@0.35:" ++ t.enabled

/-- A text that spells a number between two others. -/
def Between (low high : ℚ) (text : String) : Prop :=
  ∃ v, Decimal.spelled? text.toList = some v ∧ low ≤ v ∧ v ≤ high

/-- The numbers are those of something that can be seen, in a recording of some
length. -/
structure InRange (duration : Binary64) (t : Told) : Prop where
  x : Between 0 1 t.x
  y : Between 0 1 t.y
  width : Between (2 / 100) 1 t.width
  height : Between (2 / 100) 1 t.height
  opacity : Between (1 / 10) 1 t.opacity
  thickness : ∃ n : Int, t.thickness = toString n ∧ 1 ≤ n
  window : ∃ begins ends last, Decimal.spelled? t.start.toList = some begins ∧
    Decimal.spelled? t.stop.toList = some ends ∧
    Decimal.spelled? (duration.toFixed 6).toList = some last ∧
    0 ≤ begins ∧ begins < ends ∧ ends ≤ last

end Told

/-- Some filters draw an annotation: one draws its rectangle, and if it has a
caption one more writes that, told the same numbers. -/
def Draws (duration : Binary64) (a : Annotation) (fs : List Filter) : Prop :=
  ∃ t : Told, t.InRange duration ∧ fs.map Filter.toText =
    t.box (ink a) :: if words a = "" then [] else [t.caption (words a)]

/-- What the filters of an annotation are told. -/
def told (duration : Binary64) (a : Annotation) : Told where
  x := (corner a).x.toFixed 6
  y := (corner a).y.toFixed 6
  width := (a.width.clamp minSize 1).toFixed 6
  height := (a.height.clamp minSize 1).toFixed 6
  opacity := (opacity a).toFixed 3
  thickness := toString (max a.thickness 1)
  start := (window a duration).start.toFixed 6
  stop := (window a duration).stop.toFixed 6

theorem toText_drawings (h : isBrief (window a duration) = false) :
    (drawings duration a).map Filter.toText = (told duration a).box (ink a) ::
      if words a = "" then [] else [(told duration a).caption (words a)] := by
  have hbox : (box a (ink a) (window a duration)).toText =
      (told duration a).box (ink a) := rfl
  rw [drawings, h, if_neg Bool.false_ne_true, List.map_cons, hbox, captions]
  by_cases hwords : words a = ""
  · rw [if_pos (String.isEmpty_iff.2 hwords), if_pos hwords]
    rfl
  · rw [if_neg (mt String.isEmpty_iff.1 hwords), if_neg hwords]
    rfl

/-! ## Bounds -/

section Bounds

variable {v low high x : Binary64}

theorem clamp_finite (hv : v.isFinite = true) (hlow : low.isFinite = true)
    (hhigh : high.isFinite = true) (hle : low.value ≤ high.value) :
    (v.clamp low high).isFinite = true ∧
      low.value ≤ (v.clamp low high).value ∧
        (v.clamp low high).value ≤ high.value := by
  obtain ⟨hraised, hraisedValue⟩ := greater_finite hv hlow
  obtain ⟨hclamped, hvalue⟩ := lesser_finite hraised hhigh
  rw [hraisedValue] at hvalue
  change (v.clamp low high).isFinite = true at hclamped
  change (v.clamp low high).value = _ at hvalue
  rw [hvalue]
  exact ⟨hclamped, le_min (le_max_right _ _) hle, min_le_right _ _⟩

/-- Two numbers in their order, and the units of the last place that they are
written as. -/
def Limits (places : Nat) (low high : Binary64) (l h : Int) : Prop :=
  low.isFinite = true ∧ high.isFinite = true ∧ low.ticks ≤ high.ticks ∧
    low.units places = l ∧ high.units places = h

instance (places : Nat) (low high : Binary64) (l h : Int) :
    Decidable (Limits places low high l h) :=
  inferInstanceAs (Decidable (_ ∧ _ ∧ _ ∧ _ ∧ _))

/-- What is brought between two numbers is written between what they are written
as. -/
theorem between_clamp {places : Nat} {l h : Int} (hplaces : 0 < places)
    (hlimits : Limits places low high l h) (hv : v.isFinite = true) :
    Told.Between (l / 10 ^ places) (h / 10 ^ places)
      ((v.clamp low high).toFixed places) := by
  obtain ⟨hlow, hhigh, hle, hl, hh⟩ := hlimits
  obtain ⟨hclamped, hbelow, habove⟩ :=
    clamp_finite hv hlow hhigh (value_le_value.2 hle)
  refine ⟨(v.clamp low high).written places,
    spelled?_toFixed hplaces hclamped, ?_, ?_⟩
  · rw [← hl, ← written_eq_units]
    exact written_le_written places hlow hclamped hbelow
  · rw [← hh, ← written_eq_units]
    exact written_le_written places hclamped hhigh habove

theorem between_place (hv : v.isFinite = true) :
    Told.Between 0 1 ((v.clamp 0 1).toFixed 6) := by
  have hlimits : Limits 6 0 1 0 (10 ^ 6) := by decide +kernel
  have hbetween := between_clamp (by decide) hlimits hv
  norm_num at hbetween
  exact hbetween

theorem between_size (hv : v.isFinite = true) :
    Told.Between (2 / 100) 1 ((v.clamp minSize 1).toFixed 6) := by
  have hlimits : Limits 6 minSize 1 20000 (10 ^ 6) := by decide +kernel
  have hbetween := between_clamp (by decide) hlimits hv
  norm_num at hbetween ⊢
  exact hbetween

theorem between_opacity (hv : v.isFinite = true) :
    Told.Between (1 / 10) 1 ((v.clamp minOpacity 1).toFixed 3) := by
  have hlimits : Limits 3 minOpacity 1 100 1000 := by decide +kernel
  have hbetween := between_clamp (by decide) hlimits hv
  norm_num at hbetween ⊢
  exact hbetween

end Bounds

/-! ## How long an annotation is shown -/

/-- How long an annotation is shown, as numbers are subtracted: it ends with the
recording at the latest, and does not start before it. -/
def shownFor (duration : Binary64) (a : Annotation) : Binary64 :=
  a.stop.lesser duration - a.start.greater 0

/-- An annotation is shown for longer than the least time. -/
def Shown (duration : Binary64) (a : Annotation) : Prop :=
  minShown < shownFor duration a

instance (duration : Binary64) (a : Annotation) : Decidable (Shown duration a) :=
  inferInstanceAs (Decidable (_ < _))

/-- How long an annotation is shown, exactly. -/
def extent (duration : Binary64) (a : Annotation) : ℚ :=
  min a.stop.value duration.value - max a.start.value 0

end Render.Picture

/-- The numbers of an annotation are finite. -/
structure Annotation.IsFinite (a : Annotation) : Prop where
  start : a.start.isFinite = true
  stop : a.stop.isFinite = true
  x : a.x.isFinite = true
  y : a.y.isFinite = true
  width : a.width.isFinite = true
  height : a.height.isFinite = true
  opacity : a.opacity.isFinite = true

/-- The numbers that annotations are drawn with are finite. -/
structure Project.HasFiniteAnnotations (p : Project) : Prop where
  duration : p.duration.isFinite = true
  annotations : ∀ a ∈ p.edits.annotations, a.IsFinite

namespace Render.Picture

section Length

variable {duration : Binary64} {a : Annotation}

/-- The window of an annotation in a recording of finite length. -/
theorem window_finite (ha : a.IsFinite) (hduration : duration.isFinite = true) :
    (window a duration).start.isFinite = true ∧
      (window a duration).stop.isFinite = true ∧
      (window a duration).stop.value - (window a duration).start.value =
        extent duration a := by
  have hzero : (0 : Binary64).isFinite = true := by decide +kernel
  obtain ⟨hstart, hstartValue⟩ := greater_finite ha.start hzero
  obtain ⟨hstop, hstopValue⟩ := lesser_finite ha.stop hduration
  refine ⟨hstart, hstop, ?_⟩
  rw [window, hstartValue, hstopValue, value_zero, extent]

theorem minShown_finite : minShown.isFinite = true := by decide +kernel

theorem isBrief_eq_false_iff (ha : a.IsFinite)
    (hduration : duration.isFinite = true) :
    isBrief (window a duration) = false ↔ Shown duration a := by
  obtain ⟨hstart, hstop, _⟩ := window_finite ha hduration
  rw [isBrief, decide_eq_false_iff_not, not_le (isNaN_sub hstop hstart)
    (isNaN_of_isFinite minShown_finite)]
  exact Iff.rfl

theorem shown_iff_ticks (ha : a.IsFinite) (hduration : duration.isFinite = true) :
    Shown duration a ↔ minShown.ticks <
      ((window a duration).stop - (window a duration).start).ticks := by
  obtain ⟨hstart, hstop, _⟩ := window_finite ha hduration
  exact lt_iff_ticks (isNaN_of_isFinite minShown_finite) (isNaN_sub hstop hstart)

theorem value_sub (x y : Binary64) :
    x.value - y.value = ((x.ticks - y.ticks : ℤ) : ℚ) / unit := by
  rw [value, value, ← sub_div, Int.cast_sub]

/-- A difference that is exact or too small stays so when numbers
are subtracted. -/
theorem extent_lt_of_shown (ha : a.IsFinite)
    (hduration : duration.isFinite = true) (hshown : Shown duration a) :
    minShown.value < extent duration a := by
  obtain ⟨hstart, hstop, hextent⟩ := window_finite ha hduration
  have hunit : (0 : ℚ) < unit := by exact_mod_cast unit_pos
  rw [shown_iff_ticks ha hduration] at hshown
  have hexact : minShown.ticks <
      (window a duration).stop.ticks - (window a duration).start.ticks := by
    by_contra hle
    exact Int.not_lt.2
      (ticks_sub_le hstop hstart minShown_finite (Int.not_lt.1 hle)) hshown
  rw [← hextent, value_sub, value, div_lt_div_iff_of_pos_right hunit]
  exact_mod_cast hexact

/-- The number right above the least time. -/
theorem exists_above_minShown : ∃ c : Binary64, c.isFinite = true ∧
    minShown.ticks < c.ticks ∧ c.value = minShown.value + 1 / 2 ^ 59 := by
  refine ⟨0.010000000000000002, by decide +kernel, by decide +kernel, ?_⟩
  have hticks : (0.010000000000000002 : Binary64).ticks * 2 ^ 59 =
      minShown.ticks * 2 ^ 59 + unit := by decide +kernel
  have hunit : (unit : ℚ) ≠ 0 := by exact_mod_cast Nat.ne_of_gt unit_pos
  have hvalue : ((0.010000000000000002 : Binary64).ticks : ℚ) * 2 ^ 59 =
      minShown.ticks * 2 ^ 59 + unit := by exact_mod_cast hticks
  rw [value, value]
  field_simp
  linarith

theorem shown_of_lt_extent (ha : a.IsFinite)
    (hduration : duration.isFinite = true)
    (hlong : minShown.value + 1 / 2 ^ 59 ≤ extent duration a) :
    Shown duration a := by
  obtain ⟨hstart, hstop, hextent⟩ := window_finite ha hduration
  obtain ⟨c, hc, habove, hvalue⟩ := exists_above_minShown
  have hunit : (0 : ℚ) < unit := by exact_mod_cast unit_pos
  rw [← hvalue, ← hextent, value_sub, value, div_le_div_iff_of_pos_right hunit] at hlong
  have hexact : c.ticks ≤
      (window a duration).stop.ticks - (window a duration).start.ticks := by
    exact_mod_cast hlong
  rw [shown_iff_ticks ha hduration]
  exact Int.lt_of_lt_of_le habove (le_ticks_sub hstop hstart hc hexact)

/-! ## Annotations that are shown -/

theorem least_lt_minShown : (1 : ℚ) / 10 ^ 6 < minShown.value := by
  have hticks : (unit : ℤ) < minShown.ticks * 10 ^ 6 := by decide +kernel
  have hunit : (0 : ℚ) < unit := by exact_mod_cast unit_pos
  rw [Binary64.value, div_lt_div_iff₀ (by positivity) hunit, one_mul]
  exact_mod_cast hticks

/-- What is shown is shown for longer than a unit of the last place, so its
window is not empty as it is written. -/
theorem told_window (ha : a.IsFinite) (hduration : duration.isFinite = true)
    (hshown : Shown duration a) :
    0 ≤ (window a duration).start.written 6 ∧
      (window a duration).start.written 6 < (window a duration).stop.written 6 ∧
      (window a duration).stop.written 6 ≤ duration.written 6 := by
  have hzero : (0 : Binary64).isFinite = true := by decide +kernel
  obtain ⟨hstart, hstop, hextent⟩ := window_finite ha hduration
  refine ⟨?_, ?_, ?_⟩
  · have hwritten : (0 : Binary64).written 6 = 0 := by
      have hunits : (0 : Binary64).units 6 = 0 := by decide +kernel
      rw [written_eq_units, hunits, Int.cast_zero, zero_div]
    rw [← hwritten]
    refine written_le_written 6 hzero hstart ?_
    rw [window, (greater_finite ha.start hzero).2]
    exact le_max_right _ _
  · refine written_lt_written 6 hstart hstop ?_
    rw [hextent]
    exact least_lt_minShown.trans (extent_lt_of_shown ha hduration hshown)
  · refine written_le_written 6 hstop hduration ?_
    rw [window, (lesser_finite ha.stop hduration).2]
    exact min_le_right _ _

theorem told_inRange (ha : a.IsFinite) (hduration : duration.isFinite = true)
    (hshown : Shown duration a) : (told duration a).InRange duration := by
  obtain ⟨hstart, hstop, _⟩ := window_finite ha hduration
  obtain ⟨hlow, hlt, hhigh⟩ := told_window ha hduration hshown
  exact {
    x := between_place ha.x
    y := between_place ha.y
    width := between_size ha.width
    height := between_size ha.height
    opacity := between_opacity ha.opacity
    thickness := ⟨max a.thickness 1, rfl, le_max_right _ _⟩
    window := ⟨_, _, _, spelled?_toFixed (by decide) hstart,
      spelled?_toFixed (by decide) hstop, spelled?_toFixed (by decide) hduration,
      hlow, hlt, hhigh⟩ }

theorem drawings_draw (ha : a.IsFinite) (hduration : duration.isFinite = true)
    (hshown : Shown duration a) : Draws duration a (drawings duration a) :=
  ⟨told duration a, told_inRange ha hduration hshown,
    toText_drawings ((isBrief_eq_false_iff ha hduration).2 hshown)⟩

/-- What is drawn is what the annotations that are shown are drawn with. -/
theorem flatMap_drawings (hduration : duration.isFinite = true)
    {as : List Annotation} (has : ∀ a ∈ as, a.IsFinite) :
    as.flatMap (drawings duration) =
      ((as.filter (Shown duration ·)).map (drawings duration)).flatten := by
  induction as with
  | nil => rfl
  | cons a as ih =>
      obtain ⟨ha, has⟩ := List.forall_mem_cons.1 has
      rw [List.flatMap_cons, ih has]
      by_cases hshown : Shown duration a
      · rw [List.filter_cons_of_pos (by simpa using hshown)]
        rfl
      · have hbrief : isBrief (window a duration) = true := by
          rw [← isBrief_eq_false_iff ha hduration, Bool.not_eq_false] at hshown
          exact hshown
        rw [List.filter_cons_of_neg (by simpa using hshown), drawings,
          if_pos hbrief]
        rfl

end Length

/-- The annotations that are shown for long enough are drawn in their order,
each told numbers in range, and every filter takes what the one before it gives.
An action fails only for what is shown and has no colour or no caption in words.
How long an annotation is shown is subtracted with numbers, and compared as if
it were exact up to the gap between two of them. -/
theorem annotation_chain {p : Project} (hfinite : p.HasFiniteAnnotations)
    (source : Label) :
    Succeeds (∀ a ∈ p.edits.annotations, Drawable p.duration a)
        (withAnnotations source p) ∧
      Adds (¬ ∀ a ∈ p.edits.annotations, Drawable p.duration a)
        (withAnnotations source p) (fun last new => ∃ parts,
          List.Forall₂ (Draws p.duration)
            (p.edits.annotations.filter (Shown p.duration ·)) parts ∧
          Threads source parts.flatten new last) ∧
      ∀ a ∈ p.edits.annotations,
        (extent p.duration a ≤ minShown.value → ¬ Shown p.duration a) ∧
        (minShown.value + 1 / 2 ^ 59 ≤ extent p.duration a →
          Shown p.duration a) := by
  have hduration := hfinite.duration
  refine ⟨?_, ?_, fun a ha => ⟨fun hshort hshown => ?_, ?_⟩⟩
  · exact .foldlM (fun l a => annotate_succeeds p.duration l a)
      source p.edits.annotations
  · refine (withAnnotations_threads_of_drawable p source).imp
      fun last new hthreads => ?_
    rw [flatMap_drawings hduration hfinite.annotations] at hthreads
    refine ⟨_, ?_, hthreads⟩
    rw [List.forall₂_map_right_iff, List.forall₂_same]
    intro a ha
    obtain ⟨hmem, hshown⟩ := List.mem_filter.1 ha
    exact drawings_draw (hfinite.annotations a hmem) hduration
      (of_decide_eq_true hshown)
  · have hlong := extent_lt_of_shown (hfinite.annotations a ha) hduration hshown
    exact absurd hshort (not_le_of_gt hlong)
  · exact shown_of_lt_extent (hfinite.annotations a ha) hduration

/-- A recording with three annotations: one with every number out of range, one
that is hardly shown, and one without a caption. -/
def unruly : Project :=
  let plain := Project.screenOnly 20 [] []
  let annotations : List Annotation :=
    [⟨.null, -1, 99, -3, 7, 0, 5, .text "r ed", 0, -2, .text " A "⟩,
      ⟨.null, 5, 5.005, 0.1, 0.1, 0.2, 0.2, .text "red", 1, 4, .text "B"⟩,
      ⟨.null, 6, 8, 0.1, 0.1, 0.2, 0.2, .text "red", 1, 4, .text "  "⟩]
  { plain with edits := { plain.edits with annotations := annotations } }

theorem unruly_hasFiniteAnnotations : unruly.HasFiniteAnnotations := by
  refine ⟨by decide +kernel, ?_⟩
  have hall : ∀ a ∈ unruly.edits.annotations, a.start.isFinite = true ∧
      a.stop.isFinite = true ∧ a.x.isFinite = true ∧ a.y.isFinite = true ∧
      a.width.isFinite = true ∧ a.height.isFinite = true ∧
      a.opacity.isFinite = true := by decide +kernel
  intro a ha
  obtain ⟨hstart, hstop, hx, hy, hwidth, hheight, hopacity⟩ := hall a ha
  exact ⟨hstart, hstop, hx, hy, hwidth, hheight, hopacity⟩

theorem annotation_chain_unruly :
    unruly.HasFiniteAnnotations ∧
      Succeeds (∀ a ∈ unruly.edits.annotations, Drawable unruly.duration a)
        (withAnnotations (.input 0 .video) unruly) ∧
      Adds (¬ ∀ a ∈ unruly.edits.annotations, Drawable unruly.duration a)
        (withAnnotations (.input 0 .video) unruly) (fun last new => ∃ parts,
          List.Forall₂ (Draws unruly.duration)
            (unruly.edits.annotations.filter (Shown unruly.duration ·)) parts ∧
          Threads (.input 0 .video) parts.flatten new last) ∧
      (unruly.edits.annotations.map fun a => decide (Shown unruly.duration a)) =
        [true, false, true] ∧
      ((withAnnotations (.input 0 .video) unruly).run.run {}).2.toText =
        "[0:v]drawbox=x=iw*0.000000:y=ih*1.000000:w=iw*0.020000:h=ih*1.000000"
          ++ ":color=red@0.100:t=1:enable='between(t,0.000000,20.000000)'[vannot0];"
          ++ "[vannot0]drawtext=text='A':x=w*0.000000+10:y=h*1.000000+10:fontsize=28"
          ++ ":fontcolor=white@0.100:box=1:boxcolor=black@0.35"
          ++ ":enable='between(t,0.000000,20.000000)'[vannottxt0];"
          ++ "[vannottxt0]drawbox=x=iw*0.100000:y=ih*0.100000:w=iw*0.200000"
          ++ ":h=ih*0.200000:color=red@1.000:t=4"
          ++ ":enable='between(t,6.000000,8.000000)'[vannot1]" := by
  have hfinite := unruly_hasFiniteAnnotations
  obtain ⟨hsucceeds, hadds, _⟩ := annotation_chain hfinite (.input 0 .video)
  exact ⟨hfinite, hsucceeds, hadds, by decide +kernel, by decide +kernel⟩

end Render.Picture

end Cutlist
