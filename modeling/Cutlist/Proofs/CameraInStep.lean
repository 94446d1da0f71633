import Cutlist.Proofs.Moments

/-!
# Which moments of the camera are seen

The camera is brought into step with the screen recording by its offset, and
is then laid over a picture that may have been cut. It is not cut along with
it: it runs on from where the export begins. So it stays in step for as long as
the export leaves the moments of the recording where they are, and only then.
-/

namespace Cutlist

open FilterGraph Render Export Footage Binary64 Timeline

/-- Something of the camera is seen at every instant from 0 on. -/
theorem Render.Offset.shows_of_nonneg (o : Offset) {u : ℝ} (h : 0 ≤ u) :
    ∃ c, o.Shows c u := by
  unfold Shows
  split
  · exact ⟨u - o.lead.value, (sub_add_cancel ..).symm⟩
  · split
    · exact ⟨u + o.lead.value, le_add_of_nonneg_left h,
        (add_sub_cancel_right ..).symm⟩
    · exact ⟨u, rfl⟩

/-- The camera is seen at the time of its recording that belongs to the time of
the screen recording which is seen with it. -/
def CameraInStep (p : Project) (o : Offset) (k : Nat) (shown : Footage) :
    Prop :=
  ∀ t c u, p.Renders t u → (u, .picture k c) ∈ shown → t = c + o.lag

/-- What is seen of a camera that is not cut: it is as far into its recording
as the export is, up to its offset. -/
structure RunsOn (p : Project) (o : Offset) (k : Nat) (shown : Footage) :
    Prop where
  screen : ∀ t u, (u, .picture 0 t) ∈ shown ↔ p.Renders t u
  camera : ∀ c u, (u, .picture k c) ∈ shown ↔
    (∃ t, p.Renders t u) ∧ o.Shows c u

section Moments

variable {p : Project} {o : Offset} {k : Nat} {shown : Footage}

theorem RunsOn.of_showsPicture (h : ShowsPicture p (some k) shown)
    (ho : Offset.ofJson? (Offset.given p.cameraOffset) = some o) :
    RunsOn p o k shown := by
  refine ⟨h.screen, fun c u => (h.camera k rfl c u).trans ?_⟩
  refine and_congr_right fun _ => ⟨?_, fun hshows => ⟨o, ho, hshows⟩⟩
  rintro ⟨o', ho', hshows⟩
  rw [ho] at ho'
  cases ho'
  exact hshows

/-- A camera that runs on is in step just where the screen recording is shown at
its own time. -/
theorem RunsOn.inStep_iff (h : RunsOn p o k shown)
    (hfinite : p.HasFiniteEdits)
    (hspeeds : ∀ e ∈ p.edits.speed, 0 < e.speed) :
    CameraInStep p o k shown ↔ p.KeepsTime := by
  constructor
  · intro hstep t u ht
    cases hedited : isEdited p.pieces p.whole with
    | false => exact p.keepsTime_of_not_edited hedited t u ht
    | true =>
        -- A cut export begins at 0, and from there on the camera is seen.
        have hplays : Plays p.pieces t u := by
          rwa [Project.Renders, if_pos hedited] at ht
        have hu : 0 ≤ u := hplays.nonneg (p.pieces_forward hfinite hspeeds)
          fun hmany q hq => (p.pieces_advance hfinite hspeeds hmany q hq).rising
        obtain ⟨c, hc⟩ := o.shows_of_nonneg hu
        rw [hstep t c u ht ((h.camera c u).2 ⟨⟨t, ht⟩, hc⟩), hc.eq_add_lag]
  · intro hsame t c u ht hc
    rw [hsame t u ht, ((h.camera c u).1 hc).2.eq_add_lag]

/-- The camera of an export is brought into step and runs on. -/
theorem Export.Graph.build_runsOn {options : Options} {screenHasAudio : Bool}
    (hfinite : p.HasFiniteEdits)
    (hspeeds : ∀ e ∈ p.edits.speed, 0 < e.speed)
    (hkind : options.format.kind ≠ .sound) {path : Json}
    (hcamera : ifGiven p.camera = some path) :
    Meets (¬ p.Usable) (build p options (Plan.ofProject p screenHasAudio)) {}
      fun out g => ∃ k o, out.camera = some k ∧
        Numbered g.inputs (some path) (some k) ∧
        Offset.ofJson? (Offset.given p.cameraOffset) = some o ∧
        LaidOver p k g.chains ∧ RunsOn p o k (footage g.chains out.shown) := by
  have hsome : (ifGiven p.camera).isSome = true := by
    rw [hcamera]
    rfl
  refine (build_showsPicture hfinite hspeeds hkind
    (Plan.not_fast_of_camera hsome)).imp
    fun out g ⟨hregistered, hlaid, hshown⟩ => ?_
  have hnumber : Numbered g.inputs (ifGiven p.camera) out.camera :=
    hregistered.camera
  rw [hcamera] at hnumber
  obtain ⟨k, hk, hnumber⟩ := hnumber.of_some
  have hover := hlaid k hk
  obtain ⟨o, _, _, _, ho, _⟩ := hover
  rw [hk] at hshown
  exact ⟨k, o, hk, hnumber, ho, hlaid k hk, .of_showsPicture hshown ho⟩

/-- The camera is brought into step, and neither cut nor retimed. It runs on in
the export, and is in step just where the screen recording is shown at its own
time. -/
theorem camera_runs_on (p : Project) (options : Options)
    (screenHasAudio : Bool) (hfinite : p.HasFiniteEdits)
    (hspeeds : ∀ e ∈ p.edits.speed, 0 < e.speed)
    (hkind : options.format.kind ≠ .sound) {path : Json}
    (hcamera : ifGiven p.camera = some path) :
    Meets (¬ p.Usable)
      (Graph.build p options (Plan.ofProject p screenHasAudio)) {} fun out g =>
        ∃ k o, out.camera = some k ∧ Numbered g.inputs (some path) (some k) ∧
          Offset.ofJson? (Offset.given p.cameraOffset) = some o ∧
          LaidOver p k g.chains ∧
          RunsOn p o k (footage g.chains out.shown) ∧
          (CameraInStep p o k (footage g.chains out.shown) ↔ p.KeepsTime) :=
  (Graph.build_runsOn hfinite hspeeds hkind hcamera).imp
    fun _ _ ⟨k, o, hk, hnumber, ho, hlaid, hruns⟩ =>
      ⟨k, o, hk, hnumber, ho, hlaid, hruns, hruns.inStep_iff hfinite hspeeds⟩

/-- A recording with a camera, of which the segments are shown. -/
def filmed (segments : List Segment) : Project :=
  { Project.screenOnly 20 segments [] with camera := .text "camera.mp4" }

theorem filmed_hasFiniteEdits {segments : List Segment}
    (h : ∀ s ∈ segments, s.start.isFinite = true ∧ s.stop.isFinite = true) :
    (filmed segments).HasFiniteEdits :=
  ⟨⟨show (20 : Binary64).isFinite = true by decide +kernel, h,
    (fun _ h => nomatch h), (fun _ h => nomatch h)⟩, fun _ h => nomatch h⟩

theorem pieces_filmed_whole : (filmed []).pieces = [⟨0, 20, 1, none⟩] := by
  have hranges : (filmed []).ranges = [⟨0, 20⟩] :=
    Range.sort_of_sorted (by decide +kernel) (List.pairwise_singleton _ _)
  rw [Project.pieces, Project.cutPieces, hranges,
    Edits.piecesOf_of_sorted (by decide +kernel)]
  decide +kernel

/-- Nothing is cut out of this recording, and its camera is in step. -/
theorem camera_runs_on_whole :
    (filmed []).HasFiniteEdits ∧
    ifGiven (filmed []).camera = some (.text "camera.mp4") ∧
    Meets (¬ (filmed []).Usable)
      (Graph.build (filmed []) {} (Plan.ofProject (filmed []) false)) {}
      fun out g => ∃ k o, out.camera = some k ∧
        RunsOn (filmed []) o k (footage g.chains out.shown) ∧
        CameraInStep (filmed []) o k (footage g.chains out.shown) := by
  have hfinite : (filmed []).HasFiniteEdits :=
    filmed_hasFiniteEdits fun _ h => nomatch h
  have hcamera : ifGiven (filmed []).camera = some (.text "camera.mp4") := rfl
  have hkeeps : (filmed []).KeepsTime := by
    refine Project.keepsTime_of_not_edited ?_
    rw [pieces_filmed_whole]
    decide +kernel
  refine ⟨hfinite, hcamera, (camera_runs_on (filmed []) {} false hfinite
    (fun _ h => nomatch h) (by decide) hcamera).imp
    fun out g ⟨k, o, hk, _, _, _, hruns, hstep⟩ =>
      ⟨k, o, hk, hruns, hstep.2 hkeeps⟩⟩

theorem usable_filmed (segments : List Segment) : (filmed segments).Usable := by
  have hunset : Offset.Readable .null := by
    refine ⟨_, rfl, ?_⟩
    decide +kernel
  exact ⟨hunset, hunset, (fun _ h => nomatch h), (fun _ h => nomatch h)⟩

/-- A recording without seconds 3 to 5. -/
def spliced : List Segment := [⟨.null, 0, 3, true⟩, ⟨.null, 5, 9, true⟩]

theorem pieces_filmed_spliced :
    (filmed spliced).pieces = [⟨0, 3, 1, none⟩, ⟨5, 9, 1, none⟩] := by
  have hranges : (filmed spliced).ranges = [⟨0, 3⟩, ⟨5, 9⟩] :=
    Range.sort_of_sorted (by decide +kernel) (by decide +kernel)
  rw [Project.pieces, Project.cutPieces, hranges,
    Edits.piecesOf_of_sorted (by decide +kernel)]
  decide +kernel

theorem renders_filmed_spliced : (filmed spliced).Renders 6 4 := by
  have hedited : isEdited (filmed spliced).pieces (filmed spliced).whole =
      true := by
    rw [pieces_filmed_spliced]
    rfl
  have hthree : (3 : Binary64).value = (3 : Int) :=
    value_of_ticks (by decide +kernel)
  have hfive : (5 : Binary64).value = (5 : Int) :=
    value_of_ticks (by decide +kernel)
  have hnine : (9 : Binary64).value = (9 : Int) :=
    value_of_ticks (by decide +kernel)
  rw [Project.Renders, if_pos hedited, pieces_filmed_spliced]
  have hsecond : Plays [⟨5, 9, 1, none⟩] 6 1 := by
    rw [plays_single, Contains, hfive, hnine, value_one]
    norm_num
  have hfirst : (⟨0, 3, 1, none⟩ : Piece).takes = 3 := by
    rw [Piece.takes, hthree, value_zero, value_one]
    norm_num
  have := Plays.later (q := ⟨0, 3, 1, none⟩) hsecond
  rw [hfirst] at this
  norm_num at this
  exact this

/-- Second 6 of the screen recording is shown at second 4 of the export,
together with second 4 of the camera. -/
theorem camera_out_of_step :
    Meets False (Graph.build (filmed spliced) {}
      (Plan.ofProject (filmed spliced) false)) {} fun out g =>
        ∃ k o, out.camera = some k ∧
          Offset.ofJson? (Offset.given (filmed spliced).cameraOffset) = some o ∧
          ¬ CameraInStep (filmed spliced) o k (footage g.chains out.shown) := by
  have hfinite : (filmed spliced).HasFiniteEdits := by
    refine filmed_hasFiniteEdits ?_
    simp only [spliced, List.forall_mem_cons]
    decide +kernel
  refine ((Graph.build_runsOn hfinite (fun _ h => nomatch h) (by decide)
    rfl).excused fun h => h (usable_filmed _)).imp
    fun out g ⟨k, o, hk, _, ho, _, hruns⟩ => ⟨k, o, hk, ho, fun hstep => ?_⟩
  have hsame := (hruns.inStep_iff hfinite fun _ h => nomatch h).1 hstep 6 4
    renders_filmed_spliced
  norm_num at hsame

end Moments

end Cutlist
