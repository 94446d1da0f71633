import Cutlist.Proofs.InStep
import Cutlist.Proofs.ShownPicture
import Cutlist.Proofs.TempoFactors

/-!
# Which moments are seen together

Cuts and speeds move the moments of the screen recording. What is laid over the
picture afterwards is not moved with them. This says of each instant of an
export which moment of the screen recording, which moment of the camera and
which drawings are seen at it.
-/

namespace Cutlist

open FilterGraph Render Export Footage Binary64 Timeline

/-- An instant of the screen recording is shown at an instant of the export. -/
def Project.Renders (p : Project) (t u : ℝ) : Prop :=
  if isEdited p.pieces p.whole then Plays p.pieces t u else u = t

theorem Project.renders_of_not_edited {p : Project}
    (h : isEdited p.pieces p.whole = false) (t u : ℝ) :
    p.Renders t u ↔ u = t := by
  rw [Renders, h]
  exact Iff.rfl

/-- Whatever is shown of the screen recording is shown at its own time. -/
def Project.KeepsTime (p : Project) : Prop :=
  ∀ t u, p.Renders t u → t = u

theorem Project.keepsTime_of_not_edited {p : Project}
    (h : isEdited p.pieces p.whole = false) : p.KeepsTime :=
  fun t u ht => ((p.renders_of_not_edited h t u).1 ht).symm

/-! ## Pieces advance -/

theorem Timeline.speedAt_pos {effects : List SpeedEffect}
    (h : ∀ e ∈ effects, 0 < e.speed) (t : Binary64) :
    0 < speedAt effects t := by
  rw [speedAt]
  split
  · next e he => exact h e (List.mem_of_find?_eq_some he)
  · show (0 : Binary64) < 1
    decide +kernel

theorem Project.pieces_forward {p : Project} (hfinite : p.HasFiniteEdits)
    (hspeeds : ∀ e ∈ p.edits.speed, 0 < e.speed) :
    ∀ q ∈ p.pieces, 0 < q.speed.value := by
  intro q hq
  have hspeed : q.speed.isFinite = true := (p.pieces_finite hfinite q hq).speed
  rw [pieces] at hq
  split at hq
  · rw [List.mem_singleton.1 hq, value_one]
    exact zero_lt_one
  · obtain ⟨r, _, hpiece⟩ := List.mem_flatMap.1 hq
    obtain ⟨part, _, rfl⟩ := List.mem_map.1 hpiece
    rw [← value_zero, ← lt_iff_value isNaN_zero (isNaN_of_isFinite hspeed)]
    exact speedAt_pos hspeeds _

/-- Several pieces are cut from ranges, and each of them lies within its own. -/
theorem Project.pieces_advance {p : Project} (hfinite : p.HasFiniteEdits)
    (hspeeds : ∀ e ∈ p.edits.speed, 0 < e.speed) :
    1 < p.pieces.length → ∀ q ∈ p.pieces, q.Advances := by
  intro hmany q hq
  refine ⟨?_, pieces_forward hfinite hspeeds q hq⟩
  rw [pieces] at hmany hq
  split at hmany
  · exact absurd hmany (Nat.lt_irrefl 1)
  · next hsome =>
      rw [if_neg hsome] at hq
      obtain ⟨r, hr, hpiece⟩ := List.mem_flatMap.1 hq
      exact ((tiles_piecesOf hfinite.toHasFiniteTimes hr).within q.range
        (List.mem_map_of_mem hpiece)).2.1

/-! ## Drawings -/

namespace FilterGraph

theorem Filter.shows_of_window {f : Filter} {w : Window} (h : f.window? = some w)
    (F : Footage) : f.shows [F] = F.drawn f w.written := by
  cases f with
  | drawBox => cases h; rfl
  | drawText => cases h; rfl
  | _ => cases h

/-- A window in which a filter draws. -/
def Draws (filters : List Filter) (f : Filter) (u : ℝ) : Prop :=
  f ∈ filters ∧ ∃ w, f.window? = some w ∧ u ∈ w.written

/-- Drawings are added to footage and take nothing from it. -/
theorem mem_runs_drawings {filters : List Filter}
    (h : ∀ f ∈ filters, ∃ w, f.window? = some w) (F : Footage) (u : ℝ)
    (sight : Sight) : (u, sight) ∈ runs filters F ↔ (u, sight) ∈ F ∨
      ∃ f, sight = .drawing f ∧ u ∈ F.instants ∧ Draws filters f u := by
  -- Over all footage, since each filter draws on what those before it left.
  induction filters generalizing F with
  | nil => simp [runs, Draws]
  | cons f filters ih =>
      obtain ⟨w, hw⟩ := h f (List.mem_cons_self ..)
      have hrest := ih (fun g hg => h g (List.mem_cons_of_mem f hg))
        (F.drawn f w.written)
      change (u, sight) ∈ runs filters (f.shows [F]) ↔ _
      rw [Filter.shows_of_window hw, hrest, instants_drawn]
      constructor
      · rintro ((hF | ⟨hsight, hu, hwindow⟩) | ⟨g, hsight, hu, hg, hdraws⟩)
        · exact .inl hF
        · exact .inr ⟨f, hsight, hu, List.mem_cons_self .., w, hw, hwindow⟩
        · exact .inr ⟨g, hsight, hu, List.mem_cons_of_mem f hg, hdraws⟩
      · rintro (hF | ⟨g, hsight, hu, hg, w', hw', hwindow⟩)
        · exact .inl (.inl hF)
        · rcases List.mem_cons.1 hg with rfl | hg
          · rw [hw] at hw'
            cases hw'
            exact .inl (.inr ⟨hsight, hu, hwindow⟩)
          · exact .inr ⟨g, hsight, hu, hg, w', hw', hwindow⟩

end FilterGraph

theorem Render.Picture.window_of_mem_drawings {duration : Binary64}
    {a : Annotation} {f : Filter} (h : f ∈ Picture.drawings duration a) :
    f.window? = some (Picture.window a duration) := by
  rw [Picture.drawings] at h
  split at h
  · cases h
  · rcases List.mem_cons.1 h with rfl | h
    · rfl
    · rw [Picture.captions] at h
      split at h
      · cases h
      · rw [List.mem_singleton.1 h]
        rfl

theorem Render.Picture.box_mem_drawings (duration : Binary64) (a : Annotation)
    (h : Picture.isBrief (Picture.window a duration) = false) :
    Picture.box a (Picture.ink a) (Picture.window a duration) ∈
      Picture.drawings duration a := by
  rw [Picture.drawings, h]
  exact List.mem_cons_self ..

/-! ## What an export shows -/

namespace Export

variable {p : Project} {plan : Plan}

theorem mem_cutFootage (hfast : plan.fast = false)
    (hpieces : plan.pieces = p.pieces)
    (hedited : plan.edited = isEdited p.pieces p.whole) (u : ℝ) (sight : Sight) :
    (u, sight) ∈ cutFootage plan ↔
      ∃ t, sight = .picture 0 t ∧ p.Renders t u := by
  unfold cutFootage Project.Renders
  rw [hfast, hedited, hpieces, Bool.not_false, Bool.true_and]
  split
  · exact Iff.rfl
  · constructor
    · intro h
      exact ⟨u, h, rfl⟩
    · rintro ⟨t, hsight, rfl⟩
      exact hsight

theorem instants_cutFootage (hfast : plan.fast = false)
    (hpieces : plan.pieces = p.pieces)
    (hedited : plan.edited = isEdited p.pieces p.whole) (u : ℝ) :
    u ∈ (cutFootage plan).instants ↔ ∃ t, p.Renders t u := by
  rw [mem_instants]
  constructor
  · rintro ⟨sight, hsight⟩
    obtain ⟨t, _, ht⟩ := (mem_cutFootage hfast hpieces hedited u sight).1 hsight
    exact ⟨t, ht⟩
  · rintro ⟨t, ht⟩
    exact ⟨.picture 0 t, (mem_cutFootage hfast hpieces hedited u _).2
      ⟨t, rfl, ht⟩⟩

theorem mem_coveredFootage {camera : Option Nat} {u : ℝ} {sight : Sight} :
    (u, sight) ∈ coveredFootage p plan camera ↔ (u, sight) ∈ cutFootage plan ∨
      ∃ k, camera = some k ∧ (u, sight) ∈ cameraFootage p k ∧
        u ∈ (cutFootage plan).instants := by
  cases camera with
  | none => simp [coveredFootage]
  | some k => simp [coveredFootage, covered]

theorem instants_coveredFootage (camera : Option Nat) :
    (coveredFootage p plan camera).instants = (cutFootage plan).instants := by
  cases camera with
  | none => rfl
  | some k => exact instants_covered _ _

/-- What an export shows of each kind: the screen recording, the camera, and
the drawings. -/
structure ShowsPicture (p : Project) (camera : Option Nat) (F : Footage) :
    Prop where
  screen : ∀ t u, (u, .picture 0 t) ∈ F ↔ p.Renders t u
  camera : ∀ k, camera = some k → ∀ c u, (u, .picture k c) ∈ F ↔
    (∃ t, p.Renders t u) ∧ ∃ o,
      Offset.ofJson? (Offset.given p.cameraOffset) = some o ∧ o.Shows c u
  drawn : ∀ f u, (u, .drawing f) ∈ F ↔ (∃ t, p.Renders t u) ∧
    Draws (p.edits.annotations.flatMap (Picture.drawings p.duration)) f u

theorem showsPicture (hfast : plan.fast = false)
    (hpieces : plan.pieces = p.pieces)
    (hedited : plan.edited = isEdited p.pieces p.whole) {camera : Option Nat}
    (happart : camera ≠ some 0) :
    ShowsPicture p camera (pictureFootage p plan camera) := by
  have hwindows : ∀ f ∈ p.edits.annotations.flatMap
      (Picture.drawings p.duration), ∃ w, f.window? = some w := by
    intro f hf
    obtain ⟨a, _, ha⟩ := List.mem_flatMap.1 hf
    exact ⟨_, Picture.window_of_mem_drawings ha⟩
  have hmem := mem_runs_drawings hwindows (coveredFootage p plan camera)
  have hinstants := instants_cutFootage hfast hpieces hedited
  have hcut := mem_cutFootage hfast hpieces hedited
  -- The camera is no part of what input 0 shows, as its number is another.
  refine ⟨fun t u => ?_, fun k hk c u => ?_, fun f u => ?_⟩
  · rw [pictureFootage, hmem, mem_coveredFootage, hcut]
    constructor
    · rintro ((⟨t', hsight, ht⟩ | ⟨k, hk, ⟨o, _, c, hsight, _⟩, _⟩) | ⟨f, hsight, _⟩)
      · cases hsight
        exact ht
      · cases hsight
        exact absurd hk happart
      · cases hsight
    · exact fun ht => .inl (.inl ⟨t, rfl, ht⟩)
  · rw [pictureFootage, hmem, mem_coveredFootage, hcut, hinstants]
    constructor
    · rintro ((⟨t', hsight, ht⟩ | ⟨k', hk', ⟨o, ho, c', hsight, hshows⟩, hu⟩) |
        ⟨f, hsight, _⟩)
      · cases hsight
        exact absurd hk happart
      · cases hsight
        exact ⟨hu, o, ho, hshows⟩
      · cases hsight
    · rintro ⟨hu, o, ho, hshows⟩
      exact .inl (.inr ⟨k, hk, ⟨o, ho, c, rfl, hshows⟩, hu⟩)
  · rw [pictureFootage, hmem, mem_coveredFootage, hcut,
      instants_coveredFootage, hinstants]
    constructor
    · rintro ((⟨t, hsight, _⟩ | ⟨k, _, ⟨o, _, c, hsight, _⟩, _⟩) |
        ⟨g, hsight, hu, hdraws⟩)
      · cases hsight
      · cases hsight
      · cases hsight
        exact ⟨hu, hdraws⟩
    · rintro ⟨hu, hdraws⟩
      exact .inr ⟨f, rfl, hu, hdraws⟩

/-- While a project is shown, a drawing is seen in its window. -/
theorem ShowsPicture.drawing_iff {camera : Option Nat} {F : Footage}
    (h : ShowsPicture p camera F) {a : Annotation}
    (ha : a ∈ p.edits.annotations) {f : Filter}
    (hf : f ∈ Picture.drawings p.duration a) {t u : ℝ} (ht : p.Renders t u) :
    (u, .drawing f) ∈ F ↔ u ∈ (Picture.window a p.duration).written := by
  have hwindow := Picture.window_of_mem_drawings hf
  rw [h.drawn]
  constructor
  · rintro ⟨_, _, w, hw, hu⟩
    rw [hwindow] at hw
    cases hw
    exact hu
  · exact fun hu =>
      ⟨⟨t, ht⟩, List.mem_flatMap.2 ⟨a, ha, hf⟩, _, hwindow, hu⟩

theorem Plan.not_fast_of_annotations {screenHasAudio : Bool}
    (h : p.edits.annotations ≠ []) :
    (Plan.ofProject p screenHasAudio).fast = false := by
  have hplain : (onlyRange? p.ranges).any (isPlainStretch p) = false := by
    cases onlyRange? p.ranges with
    | none => rfl
    | some r =>
        rw [Option.any_some, isPlainStretch, List.isEmpty_eq_false_iff.2 h,
          Bool.and_false, Bool.false_and]
  rw [Plan.ofProject, hplain, Bool.and_false]

theorem Plan.not_fast_of_camera {screenHasAudio : Bool}
    (h : (ifGiven p.camera).isSome = true) :
    (Plan.ofProject p screenHasAudio).fast = false := by
  rw [Plan.ofProject, Option.isNone_eq_false_iff.2 h]
  rfl

variable {options : Options} {screenHasAudio : Bool}

theorem Graph.build_showsPicture (hfinite : p.HasFiniteEdits)
    (hspeeds : ∀ e ∈ p.edits.speed, 0 < e.speed)
    (hkind : options.format.kind ≠ .sound)
    (hfast : (Plan.ofProject p screenHasAudio).fast = false) :
    Meets (¬ p.Usable) (build p options (Plan.ofProject p screenHasAudio)) {}
      fun out g =>
        Registered (Plan.ofProject p screenHasAudio) out.toExtras g.inputs ∧
        (∀ k, out.camera = some k → LaidOver p k g.chains) ∧
        ShowsPicture p out.camera (footage g.chains out.shown) := by
  have hadvance : (Plan.ofProject p screenHasAudio).Advances :=
    Project.pieces_advance hfinite hspeeds
  refine (build_shows options hkind p.pieces_ne_nil hadvance).imp
    fun out g ⟨hregistered, hlaid, hshown⟩ => ⟨hregistered, hlaid, ?_⟩
  rw [hshown]
  exact showsPicture hfast rfl rfl hregistered.cameraApart

end Export

end Cutlist
