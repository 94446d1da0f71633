import Cutlist.Proofs.TempoFactors
import Cutlist.Proofs.Tiling
import Cutlist.Proofs.TrimmedStages

/-!
# One speed for picture, sound and progress

The speed of a piece is read in three places: the picture is told it with six
decimals, the sound by factors of its tempo, and the progress divides by it as
it is. Six decimals are enough for any speed that is not tiny, and the factors
for any speed at all. But the three are not bound to each other. Sound keeps
its tempo at a speed that is close to 1, while the picture and the progress
follow that speed all the same; and a tiny speed is nothing to the picture.
-/

namespace Cutlist

open FilterGraph Render Binary64

namespace Piece

/-- The speeds that filters tell the picture of a piece. -/
def pictureSpeeds (size : Resolution) (q : Piece) : List ℚ :=
  told "setpts=(PTS-STARTPTS)/" (Picture.pieceFilters size q)

/-- The speed that the tempo filters of a piece make together. -/
def soundSpeed (q : Piece) : ℚ := (told "atempo=" (Sound.pieceFilters q)).prod

end Piece

/-- What the picture and the sound are told of a speed agrees with it and with
each other, up to a ten-thousandth. -/
structure SpeedsAgree (picture sound speed : ℚ) : Prop where
  picture_speed : |picture - speed| ≤ speed / 10 ^ 4
  sound_speed : |sound - speed| ≤ speed / 10 ^ 4
  picture_sound : |picture - sound| ≤ speed / 10 ^ 4

/-! ## What the filters of a piece say -/

namespace FilterGraph

/-- A filter with other words is told no number. -/
theorem told_cons_of_none {words : String} {f : Filter} {filters : List Filter}
    (h : Decimal.spelledAfter? words f.toText = none) :
    told words (f :: filters) = told words filters :=
  List.filterMap_cons_none h

theorem told_retime {speed : Binary64} (hspeed : speed.isFinite = true) :
    told "setpts=(PTS-STARTPTS)/" [.retime speed] = [speed.written 6] := by
  have htext : (Filter.retime speed).toText =
      "setpts=(PTS-STARTPTS)/" ++ speed.toFixed 6 := by
    change s!"setpts=(PTS-STARTPTS)/{speed.toFixed 6}" = _
    rfl
  rw [told, List.filterMap_cons, htext, Decimal.spelledAfter?_append,
    spelled?_toFixed (by decide) hspeed]
  rfl

/-- A text that begins with other characters spells nothing behind the words. -/
theorem spelledAfter?_none {words text : String}
    (h : words.toList.isPrefixOf text.toList = false) :
    Decimal.spelledAfter? words text = none := by
  rw [Decimal.spelledAfter?, h]
  rfl

theorem spelledAfter?_trim {words : String} {stream : Stream} (q : Piece)
    (hother : ∀ rest, words.toList.isPrefixOf
      (stream.mark.toList ++ "trim=start=".toList ++ rest) = false) :
    Decimal.spelledAfter? words
      (Filter.trim stream q.start (some q.stop)).toText = none := by
  refine spelledAfter?_none ?_
  have htext : trimText q = "trim=start=" ++
      (q.start.toFixed 6 ++ (":end=" ++ q.stop.toFixed 6)) := by
    change s!"trim=start={q.start.toFixed 6}:end={q.stop.toFixed 6}" = _
    simp only [String.append_assoc]
    rfl
  rw [toText_trim, htext, String.toList_append, String.toList_append,
    ← List.append_assoc]
  exact hother _

/-- A zoom is told no speed. -/
theorem told_zoom (zoom : ActiveZoom) (size : Resolution) :
    told "setpts=(PTS-STARTPTS)/" (Picture.zoomFilters zoom size) = [] := by
  have hcrop : ∀ scale x y : Binary64, Decimal.spelledAfter?
      "setpts=(PTS-STARTPTS)/" (Filter.crop scale x y).toText = none := by
    intro scale x y
    let width := s!"iw/{scale.toFixed 6}"
    let height := s!"ih/{scale.toFixed 6}"
    change Decimal.spelledAfter? _
      (s!"crop=w={width}:h={height}:x='(iw-{width})/2+{x.toFixed 3}':" ++
        s!"y='(ih-{height})/2+{y.toFixed 3}'") = none
    refine spelledAfter?_none ?_
    simp only [String.toList_append]
    rfl
  have hresize : ∀ width height : Int, Decimal.spelledAfter?
      "setpts=(PTS-STARTPTS)/" (Filter.resize width height).toText = none := by
    intro width height
    change Decimal.spelledAfter? _ s!"scale={width}:{height}" = none
    refine spelledAfter?_none ?_
    simp only [String.toList_append]
    rfl
  rw [Picture.zoomFilters, told_cons_of_none (hcrop ..),
    told_cons_of_none (hresize ..)]
  rfl

end FilterGraph

namespace Piece

variable {q : Piece}

theorem pictureSpeeds_eq (size : Resolution) (hspeed : q.speed.isFinite = true) :
    q.pictureSpeeds size = [q.speed.written 6] := by
  have hzoom : told "setpts=(PTS-STARTPTS)/"
      ((q.zoom.map (Picture.zoomFilters · size)).getD []) = [] := by
    cases q.zoom with
    | none => rfl
    | some zoom => exact told_zoom zoom size
  rw [pictureSpeeds, Picture.pieceFilters, told_append, hzoom, List.append_nil,
    told_cons_of_none (spelledAfter?_trim q fun _ => rfl), told_retime hspeed]

theorem soundSpeed_eq :
    q.soundSpeed = (told "atempo=" (Tempo.filters q.speed)).prod := by
  rw [soundSpeed, Sound.pieceFilters, told_append,
    told_cons_of_none (spelledAfter?_trim q fun _ => rfl)]
  rfl

theorem soundSpeed_of_keeps (h : Tempo.keeps q.speed = true) :
    q.soundSpeed = 1 := by
  rw [soundSpeed_eq, Tempo.filters, Tempo.factors_of_keeps h]
  rfl

theorem keeps_eq (hspeed : q.speed.isFinite = true) (hpos : 0 < q.speed) :
    Tempo.keeps q.speed =
      decide ((q.speed - 1).abs < Timeline.speedTolerance) := by
  have hpos' : ¬ q.speed ≤ 0 :=
    (Binary64.not_le (isNaN_of_isFinite hspeed) isNaN_zero).2 hpos
  rw [Tempo.keeps, hspeed, decide_eq_false hpos']
  rfl

theorem playTime_eq (hpos : 0 < q.speed) :
    q.playTime = q.span / q.speed := by
  rw [playTime, if_pos hpos]

/-! ## Where they agree and where they do not -/

/-- Six decimals are enough for a speed that is not tiny. -/
theorem written_near {x : Binary64} (hx : x.isFinite = true)
    (hlarge : 6 / 1000 ≤ x.value) :
    |x.written 6 - x.value| ≤ x.value / 10 ^ 4 - x.value / 10 ^ 5 := by
  have hnear := abs_written_sub_value_le 6 hx
  norm_num at hnear ⊢
  linarith

/-- Six decimals of a tiny speed are zeros. -/
theorem written_tiny {x : Binary64} (hx : x.isFinite = true)
    (hpos : 0 < x.value) (htiny : x.value < 1 / (2 * 10 ^ 6)) :
    x.written 6 = 0 := by
  have hnear := abs_written_sub_value_le 6 hx
  cases x with
  | finite s n h =>
      have hunit : (0 : ℚ) < n / unit := by
        rcases (show (0 : ℚ) ≤ n / unit by positivity).eq_or_lt with hzero | hpos'
        · rw [value_finite, ← hzero, mul_zero] at hpos
          exact absurd hpos (lt_irrefl 0)
        · exact hpos'
      have hsign : s = false := by
        cases s with
        | false => rfl
        | true =>
            rw [value_finite, Decimal.sign, if_pos rfl] at hpos
            linarith
      subst hsign
      rw [abs_le] at hnear
      have hunits : (decimalUnits 6 n : ℚ) < 1 := by
        have hwritten : (Binary64.finite false n h).written 6 =
            1 * ((decimalUnits 6 n : ℚ) / 10 ^ 6) := rfl
        rw [hwritten] at hnear
        norm_num at hnear htiny
        linarith [hnear.2]
      have hzero : decimalUnits 6 n = 0 := by
        have : decimalUnits 6 n < 1 := by exact_mod_cast hunits
        omega
      rw [written, hzero]
      simp
  | infinite s => cases hx
  | nan => cases hx

/-- The picture is told a speed to six decimals, and the progress divides by the
speed itself. At a speed close to 1 the sound keeps its tempo, so that they
agree only as far as the others are told 1 as well. At any other speed they
agree unless it is tiny, and where six decimals leave nothing of it they do
not. -/
theorem one_speed (size : Resolution) (hspeed : q.speed.isFinite = true)
    (hpos : 0 < q.speed) :
    ∃ picture, q.pictureSpeeds size = [picture] ∧
      |picture - q.speed.value| ≤ 1 / (2 * 10 ^ 6) ∧
      q.playTime = q.span / q.speed ∧
      (if (q.speed - 1).abs < Timeline.speedTolerance then
        q.soundSpeed = 1 ∧
          (SpeedsAgree picture q.soundSpeed q.speed.value ↔
            |q.speed.value - 1| ≤ q.speed.value / 10 ^ 4 ∧
              |picture - 1| ≤ q.speed.value / 10 ^ 4)
      else
        |q.soundSpeed - q.speed.value| ≤ q.speed.value / 10 ^ 5 ∧
          (6 / 1000 ≤ q.speed.value →
            SpeedsAgree picture q.soundSpeed q.speed.value)) ∧
      (q.speed.value < 1 / (2 * 10 ^ 6) →
        picture = 0 ∧ ¬ SpeedsAgree picture q.soundSpeed q.speed.value) := by
  have hkeeps := keeps_eq hspeed hpos
  have hnear := abs_written_sub_value_le 6 hspeed
  have hvalue : 0 < q.speed.value := by
    rw [← value_zero, ← lt_iff_value isNaN_zero (isNaN_of_isFinite hspeed)]
    exact hpos
  refine ⟨q.speed.written 6, pictureSpeeds_eq size hspeed, hnear,
    playTime_eq hpos, ?_, fun htiny => ?_⟩
  · split
    · next hclose =>
        -- The sound is told no speed at all, so the two others have to be near 1.
        have hsound : q.soundSpeed = 1 :=
          soundSpeed_of_keeps (hkeeps.trans (decide_eq_true hclose))
        refine ⟨hsound, fun hagree => ?_, fun ⟨hplain, hpicture⟩ => ?_⟩
        · have hheard := hagree.sound_speed
          have hboth := hagree.picture_sound
          rw [hsound] at hheard hboth
          exact ⟨by rwa [abs_sub_comm], hboth⟩
        · have hlarge : 6 / 1000 ≤ q.speed.value := by
            have := (abs_le.1 hplain).1
            linarith
          rw [hsound]
          refine ⟨?_, by rwa [abs_sub_comm], hpicture⟩
          have := written_near hspeed hlarge
          linarith
    · next hfar =>
        have hsound : |q.soundSpeed - q.speed.value| ≤
            q.speed.value / 10 ^ 5 := by
          rw [soundSpeed_eq]
          exact Tempo.prod_told_near (hkeeps.trans (decide_eq_false hfar))
        refine ⟨hsound, fun hlarge => ?_⟩
        have hpicture := written_near hspeed hlarge
        refine ⟨by linarith, by linarith, ?_⟩
        rw [abs_sub_comm] at hsound
        calc |q.speed.written 6 - q.soundSpeed|
            ≤ |q.speed.written 6 - q.speed.value| +
                |q.speed.value - q.soundSpeed| := abs_sub_le _ _ _
          _ ≤ q.speed.value / 10 ^ 4 := by linarith
  · have hzero := written_tiny hspeed hvalue htiny
    refine ⟨hzero, fun hagree => ?_⟩
    have hpicture := hagree.picture_speed
    rw [hzero, zero_sub, abs_neg, abs_of_pos hvalue] at hpicture
    linarith

/-- Three times the speed is told to all three. -/
theorem one_speed_three : (0 : Binary64) < 3 ∧
    ∃ picture, (⟨0, 6, 3, none⟩ : Piece).pictureSpeeds ⟨1920, 1080⟩ = [picture] ∧
      SpeedsAgree picture (⟨0, 6, 3, none⟩ : Piece).soundSpeed
        (3 : Binary64).value := by
  have hpos : (0 : Binary64) < 3 := by decide +kernel
  have hfar : ¬ ((3 : Binary64) - 1).abs < Timeline.speedTolerance := by
    decide +kernel
  obtain ⟨picture, htold, _, _, hcases, _⟩ :=
    one_speed (q := ⟨0, 6, 3, none⟩) ⟨1920, 1080⟩ (by decide +kernel) hpos
  rw [if_neg hfar] at hcases
  refine ⟨hpos, picture, htold, hcases.2 ?_⟩
  have hlarge : (1 : Binary64) ≤ 3 := by decide +kernel
  rw [le_iff_value (by decide +kernel) (by decide +kernel), value_one] at hlarge
  exact le_trans (by norm_num) hlarge

end Piece

namespace Project

/-- A recording whose first half is shown at a speed close to 1. -/
def hardlyFaster : Project :=
  screenOnly 10 [⟨.null, 0, 10, true⟩] [⟨.null, 0, 5, 1.005⟩]

theorem pieces_hardlyFaster :
    hardlyFaster.pieces = [⟨0, 5, 1.005, none⟩, ⟨5, 10, 1, none⟩] := by
  have hranges : hardlyFaster.ranges = [⟨0, 10⟩] :=
    Range.sort_of_sorted (by decide +kernel) (List.pairwise_singleton _ _)
  rw [pieces, cutPieces, hranges, Edits.piecesOf_of_sorted (by decide +kernel)]
  decide +kernel

/-- The sound of its first half is longer than the picture. -/
theorem speeds_disagree_hardlyFaster :
    ∃ q ∈ hardlyFaster.pieces, q.speed.isFinite = true ∧ 0 < q.speed ∧
      ∀ picture ∈ q.pictureSpeeds hardlyFaster.resolution,
        ¬ SpeedsAgree picture q.soundSpeed q.speed.value := by
  have hspeed : (1.005 : Binary64).isFinite = true := by decide +kernel
  have hpos : (0 : Binary64) < 1.005 := by decide +kernel
  have hclose : ((1.005 : Binary64) - 1).abs < Timeline.speedTolerance := by
    decide +kernel
  refine ⟨⟨0, 5, 1.005, none⟩, ?_, hspeed, hpos, fun picture _ hagree => ?_⟩
  · rw [pieces_hardlyFaster]
    exact List.mem_cons_self ..
  · have hsound := hagree.sound_speed
    rw [Piece.soundSpeed_of_keeps ((Piece.keeps_eq hspeed hpos).trans
      (decide_eq_true hclose)), abs_le] at hsound
    have hfaster : (10000 : Int) * unit < 9999 * (1.005 : Binary64).ticks := by
      decide +kernel
    have hunit : (0 : ℚ) < unit := by exact_mod_cast unit_pos
    have hvalue : 10000 < 9999 * (1.005 : Binary64).value := by
      rw [value, ← mul_div_assoc, lt_div_iff₀ hunit]
      exact_mod_cast hfaster
    linarith [hsound.1]

end Project

end Cutlist
