import Cutlist.Proofs.InStep
import Cutlist.Proofs.TempoFactors
import Cutlist.Proofs.Unsought

/-!
# A plain stretch loses no edit

An export that is one plain stretch of the screen recording reads its input
from where the stretch begins to where it ends, and builds no graph. That is
right only if the graph would have done nothing else, so what makes a stretch
plain has to match what four other places decide: whether the picture is cut,
whether the sound is, whether a gain is left out, and whether anything is drawn
or laid over. Here the two are compared. The same project, made into a graph
all the same, would trim the picture and the sound of the screen to the stretch
and do no more.
-/

namespace Cutlist

open FilterGraph Render Export Binary64 Timeline

/-! ## What makes a stretch plain -/

/-- An export is one range of the recording, and nothing about it was edited
but where it begins and ends. -/
structure Project.ShowsOnly (p : Project) (r : Range) (q : Piece) : Prop where
  only : ∃ s, p.edits.segments.filter (·.enabled) = [s] ∧ r = ⟨s.start, s.stop⟩
  pieces : p.pieces = [q]
  start : (q.start - r.start).abs ≤ timeTolerance
  stop : (q.stop - r.stop).abs ≤ timeTolerance
  speed : (q.speed - 1).abs ≤ speedTolerance
  unzoomed : q.zoom = none
  camera : ifGiven p.camera = none
  microphone : ifGiven p.microphone = none
  zoom : p.edits.zoom = []
  annotations : p.edits.annotations = []

theorem Timeline.of_not_edited {pieces : List Piece} {r : Range}
    (h : isEdited pieces r = false) : ∃ q, pieces = [q] ∧
      ¬ timeTolerance < (q.start - r.start).abs ∧
      ¬ timeTolerance < (q.stop - r.stop).abs ∧
      ¬ speedTolerance < (q.speed - 1).abs ∧ q.zoom = none := by
  unfold isEdited at h
  split at h
  · next q =>
      simp only [Bool.or_eq_false_iff, decide_eq_false_iff_not] at h
      obtain ⟨⟨⟨hstart, hstop⟩, hspeed⟩, hzoom⟩ := h
      exact ⟨q, rfl, hstart, hstop, hspeed, by simpa using hzoom⟩
  · cases h

theorem Export.eq_singleton_of_onlyRange {ranges : List Range} {r : Range}
    (h : onlyRange? ranges = some r) : ranges = [r] := by
  unfold onlyRange? at h
  split at h
  · rw [Option.some.inj h]
  · cases h

/-- The only range is an enabled segment, unless it is the whole recording. -/
theorem Project.of_onlyRange {p : Project} (hfinite : p.HasFiniteTimes)
    {r : Range} (h : p.ranges = [r]) :
    (∃ s, p.edits.segments.filter (·.enabled) = [s] ∧ r = ⟨s.start, s.stop⟩) ∨
      r = p.whole := by
  have hperm : p.ranges.Perm (if p.enabledRanges.isEmpty then [p.whole]
      else p.enabledRanges) := (inOrder_sort fun x hx =>
        isNaN_of_isFinite (hfinite.ranges_before_sort x hx).1).perm
  rw [h] at hperm
  have hsingle := List.singleton_perm.1 hperm
  split at hsingle
  · exact .inr (List.singleton_inj.1 hsingle)
  · refine .inl ?_
    obtain ⟨s, hs, hr⟩ := List.map_eq_singleton_iff.1 hsingle.symm
    exact ⟨s, hs, hr.symm⟩

/-- What is planned to be read from one stretch has no other file than the screen
recording, and one range, which is a plain stretch. -/
theorem Export.Plan.of_fast {p : Project} {screenHasAudio : Bool}
    (h : (Plan.ofProject p screenHasAudio).fast = true) :
    ifGiven p.camera = none ∧ ifGiven p.microphone = none ∧
      ∃ r, p.ranges = [r] ∧ isPlainStretch p r = true := by
  have hfast : ((ifGiven p.camera).isNone && (ifGiven p.microphone).isNone &&
      (onlyRange? p.ranges).any (isPlainStretch p)) = true := h
  simp only [Bool.and_eq_true, Option.isNone_iff_eq_none] at hfast
  obtain ⟨⟨hcamera, hmicrophone⟩, honly⟩ := hfast
  refine ⟨hcamera, hmicrophone, ?_⟩
  cases hrange : onlyRange? p.ranges with
  | none =>
      rw [hrange] at honly
      cases honly
  | some r =>
      rw [hrange, Option.any_some] at honly
      exact ⟨r, eq_singleton_of_onlyRange hrange, honly⟩

/-- A stretch is not the whole recording, nothing in it was edited, and nothing
is tied to its times. -/
theorem Export.of_isPlainStretch {p : Project} {r : Range}
    (h : isPlainStretch p r = true) :
    (0 < r.start ∨ r.stop < p.duration) ∧ isEdited p.pieces r = false ∧
      p.edits.zoom = [] ∧ p.edits.annotations = [] ∧
      (p.edits.mix.system - 1).abs < Sound.gainTolerance := by
  rw [isPlainStretch] at h
  simp only [Bool.and_eq_true, Bool.or_eq_true, Bool.not_eq_true',
    decide_eq_true_eq, List.isEmpty_iff] at h
  obtain ⟨⟨⟨⟨hpart, hplain⟩, hzoom⟩, hannotations⟩, hgain⟩ := h
  exact ⟨hpart, hplain, hzoom, hannotations, hgain⟩

/-- The whole recording is no part of itself. -/
theorem Project.segment_of_part {p : Project} (hfinite : p.HasFiniteTimes)
    {r : Range} (h : p.ranges = [r]) (hpart : 0 < r.start ∨ r.stop < p.duration) :
    ∃ s, p.edits.segments.filter (·.enabled) = [s] ∧ r = ⟨s.start, s.stop⟩ := by
  rcases Project.of_onlyRange hfinite h with hsegment | rfl
  · exact hsegment
  · rcases hpart with hpart | hpart
    · exact absurd hpart (by decide +kernel : ¬ (0 : Binary64) < 0)
    · have hduration := isNaN_of_isFinite hfinite.duration
      exact absurd ((lt_iff_ticks hduration hduration).1 hpart)
        (Int.lt_irrefl _)

/-- What is planned to be read from one stretch shows only that stretch, and its
sound needs no gain. -/
theorem Export.Plan.showsOnly_of_fast {p : Project} {screenHasAudio : Bool}
    (hfinite : p.HasFiniteEdits)
    (h : (Plan.ofProject p screenHasAudio).fast = true) :
    ∃ r q, p.ranges = [r] ∧ p.ShowsOnly r q ∧
      (p.edits.mix.system - 1).abs < Sound.gainTolerance := by
  obtain ⟨hcamera, hmicrophone, r, hranges, hstretch⟩ := Plan.of_fast h
  obtain ⟨hpart, hplain, hzoom, hannotations, hgain⟩ :=
    of_isPlainStretch hstretch
  obtain ⟨q, hpieces, hstart, hstop, hspeed, hunzoomed⟩ := of_not_edited hplain
  have htimes := hfinite.toHasFiniteTimes
  have hr := htimes.ranges r (by rw [hranges]; exact List.mem_singleton.2 rfl)
  have hq := p.pieces_finite hfinite q
    (by rw [hpieces]; exact List.mem_singleton.2 rfl)
  have htime := isNaN_of_isFinite timeTolerance_finite
  refine ⟨r, q, hranges, ⟨Project.segment_of_part htimes hranges hpart, hpieces,
    ?_, ?_, ?_, hunzoomed, hcamera, hmicrophone, hzoom, hannotations⟩, hgain⟩
  · rwa [Binary64.not_lt htime
      (by rw [isNaN_abs]; exact isNaN_sub hq.start hr.1)] at hstart
  · rwa [Binary64.not_lt htime
      (by rw [isNaN_abs]; exact isNaN_sub hq.stop hr.2)] at hstop
  · rwa [Binary64.not_lt (isNaN_of_isFinite speedTolerance_finite)
      (by rw [isNaN_abs]; exact isNaN_sub hq.speed (by decide +kernel))] at hspeed

/-! ## What the graph would do -/

/-- A label is taken by one chain at most, which runs these filters. -/
def AtMost (source : Label) (filters : List Filter) (l : Label)
    (chains : List Chain) : Prop :=
  (l = source ∧ chains = []) ∨ chains = [⟨[source], filters, [l]⟩]

/-- The picture is scaled, or made into an animated image. -/
def Finishes (options : Options) (video : Label) (chains : List Chain) : Prop :=
  match options.format.kind with
  | .sound => chains = []
  | .animation => ∃ first second palette l,
    chains = [⟨[video], [.frameRate (min options.frameRate 30),
        .fitImage (min options.size.height 720), .splitVideo], [first, second]⟩,
      ⟨[first], [.makePalette], [palette]⟩,
      ⟨[second, palette], [.usePalette], [l]⟩]
  | .video => chains = [] ∨
    ∃ l, chains = [⟨[video], [.fitVideo options.size.height], [l]⟩]

/-- A gain close to 1 is in range. -/
theorem Render.Sound.clamp_of_near {x : Binary64}
    (h : (x - 1).abs < gainTolerance) : x.clamp 0 2 = x := by
  have hone : (1 : Binary64).isFinite = true := by decide +kernel
  have htolerance : gainTolerance.isNaN = false := by decide +kernel
  have hsmall : gainTolerance.ticks < (1 : Binary64).ticks := by decide +kernel
  have hzero : (0 : Binary64).ticks = 0 := by decide +kernel
  have htwo : (2 : Binary64).ticks = 2 * (1 : Binary64).ticks := by
    decide +kernel
  have hx : x.isFinite = true := by
    cases x with
    | finite s n hn => rfl
    | infinite s => cases s <;> exact absurd h (by decide +kernel)
    | nan => exact absurd h (by decide +kernel)
  have hnan := isNaN_of_isFinite hx
  rw [lt_iff_ticks (by rw [isNaN_abs]; exact isNaN_sub hx hone) htolerance,
    ticks_abs] at h
  have hlow : ¬ x < 0 := by
    intro hneg
    rw [lt_iff_ticks hnan isNaN_zero, hzero] at hneg
    have := ticks_sub_le (c := -1) hx hone (by decide +kernel)
      (by rw [ticks_neg]; omega)
    rw [ticks_neg] at this
    omega
  have hhigh : ¬ (2 : Binary64) < x := by
    intro hbig
    rw [lt_iff_ticks isNaN_two hnan, htwo] at hbig
    have := le_ticks_sub hx hone hone (by omega)
    omega
  rw [clamp, greater, if_neg hlow, lesser, if_neg hhigh]

theorem Render.Sound.gain_of_near {volume : Binary64}
    (h : (volume - 1).abs < gainTolerance) (l : Label) (stem : String) :
    Sound.gain l volume stem = pure l := by
  unfold Sound.gain
  rw [Sound.clamp_of_near h]
  exact if_pos h

section Stages

variable {excuse : Prop} {source : Label} {q : Piece}

theorem Render.Picture.timeline_one (size : Resolution) :
    Adds excuse (Picture.timeline source [q] size) fun l new =>
      new = [⟨[source], Picture.pieceFilters size q, [l]⟩] := by
  refine .bind (parts_run (by decide) [q]) fun parts new ⟨hruns, hparts⟩ => ?_
  obtain ⟨c, _, ⟨l, rfl⟩, hnil, rfl⟩ := List.forall₂_cons_left_iff.1 hruns
  obtain rfl := List.forall₂_nil_left_iff.1 hnil
  subst hparts
  exact .pure rfl

theorem Render.Sound.timeline_one {stem : String} (hstem : isStem stem = true)
    (duration : Option Binary64) :
    Adds excuse (Sound.timeline source [q] stem duration) fun l new =>
      AtMost source (Sound.pieceFilters q) l new := by
  rw [Sound.timeline]
  split
  · exact .pure (.inl ⟨rfl, rfl⟩)
  · refine .bind (parts_run hstem [q]) ?_
    rintro parts new ⟨hruns, hparts⟩
    obtain ⟨c, _, ⟨l, rfl⟩, hnil, rfl⟩ := List.forall₂_cons_left_iff.1 hruns
    obtain rfl := List.forall₂_nil_left_iff.1 hnil
    subst hparts
    exact .pure (.inr rfl)

variable {p : Project} {r : Range} {plan : Plan}

/-- The picture is trimmed to the piece, if it is edited at all. -/
theorem Export.Graph.picture_one (h : p.ShowsOnly r q)
    (hpieces : plan.pieces = [q]) :
    Adds excuse (Graph.picture p plan none) fun l new =>
      AtMost (.input 0 .video) [.trim .video q.start (some q.stop),
        .retime q.speed] l new ∧ (plan.fast = true → new = []) := by
  have hcut : Adds excuse (Graph.cut p plan) fun l new =>
      AtMost (.input 0 .video) [.trim .video q.start (some q.stop),
        .retime q.speed] l new ∧ (plan.fast = true → new = []) := by
    rw [Graph.cut]
    split
    · next hedited =>
        rw [Bool.and_eq_true, Bool.not_eq_true'] at hedited
        rw [hpieces]
        refine (Picture.timeline_one _).imp fun l new hnew => ⟨.inr ?_, ?_⟩
        · rw [hnew, Picture.pieceFilters, h.unzoomed]
          rfl
        · rw [hedited.1]
          intro hfast
          cases hfast
    · exact .pure ⟨.inl ⟨rfl, rfl⟩, fun _ => rfl⟩
  refine .bind hcut fun base new hnew => ?_
  refine .bind (P := fun l more => l = base ∧ more = []) (.pure ⟨rfl, rfl⟩) ?_
  rintro l more ⟨rfl, rfl⟩
  rw [Picture.withAnnotations, h.annotations]
  refine .pure ?_
  rw [List.append_nil, List.append_nil]
  exact hnew

/-- The sound of the screen is trimmed to the piece, if there is any and it is
touched at all. -/
theorem Export.Graph.sound_one (hpieces : plan.pieces = [q])
    (hmicrophone : plan.microphone = none)
    (hspeed : Tempo.keeps q.speed = true)
    (hgain : (p.edits.mix.system - 1).abs < Sound.gainTolerance) :
    Adds excuse (Graph.sound p plan none) fun _ new =>
      (∃ l, AtMost (.input 0 .audio) [.trim .audio q.start (some q.stop),
        .restart .audio] l new) ∧ (plan.fast = true → new = []) := by
  have hfilters : Sound.pieceFilters q =
      [.trim .audio q.start (some q.stop), .restart .audio] := by
    rw [Sound.pieceFilters, Tempo.filters, Tempo.factors_of_keeps hspeed]
    rfl
  have hscreen : Adds excuse (Sound.screen plan.timeline p) fun _ new =>
      (∃ l, AtMost (.input 0 .audio) [.trim .audio q.start (some q.stop),
        .restart .audio] l new) ∧ (plan.fast = true → new = []) := by
    refine .bind (P := fun l new => AtMost (.input 0 .audio)
      [.trim .audio q.start (some q.stop), .restart .audio] l new ∧
        (plan.fast = true → new = [])) ?_ ?_
    · rw [Plan.timeline, hpieces]
      split
      · exact .pure ⟨.inl ⟨rfl, rfl⟩, fun _ => rfl⟩
      · next hfast =>
          refine (Sound.timeline_one (by decide) _).imp fun l new hnew => ⟨?_, ?_⟩
          · rw [hfilters] at hnew
            exact hnew
          · exact fun h => absurd h hfast
    · rintro l new ⟨hnew, hfast⟩
      rw [Sound.gain_of_near hgain]
      refine .pure ?_
      rw [List.append_nil]
      exact ⟨⟨l, hnew⟩, hfast⟩
  rw [Graph.sound, Plan.sources, hmicrophone, Sound.output_eq]
  cases plan.screenHasAudio with
  | true => exact .map hscreen
  | false => exact .pure ⟨⟨_, .inl ⟨rfl, rfl⟩⟩, fun _ => rfl⟩

theorem Render.Picture.animated_finishes {options : Options}
    (hkind : options.format.kind = .animation) (video : Label) :
    Adds excuse (Graph.animation video options) fun _ new =>
      Finishes options video new := by
  refine (Picture.animated_adds video _ _).imp
    fun l new ⟨first, second, palette, hnew⟩ => ?_
  rw [Finishes, hkind]
  exact ⟨first, second, palette, l, hnew⟩

/-- The graph of a plain stretch: the picture and the sound of the screen are
trimmed to one piece, or not even that. -/
structure TrimsOnce (options : Options) (q : Piece) (g : FilterGraph)
    (shown heard last : List Chain) (video : Label) : Prop where
  chains : g.chains = shown ++ heard ++ last
  picture : AtMost (.input 0 .video)
    [.trim .video q.start (some q.stop), .retime q.speed] video shown
  sound : ∃ l, AtMost (.input 0 .audio)
    [.trim .audio q.start (some q.stop), .restart .audio] l heard
  finish : Finishes options video last

/-- A video that no chain has touched is left for the encoder to scale. -/
theorem Export.Graph.finish_video {options : Options} {extras : Graph.Extras}
    (hkind : options.format.kind = .video) {video : Label}
    {audio : Option Label} (g : FilterGraph) :
    Meets excuse (do
      if (← get).isEmpty then
        return ({ extras with audio := audio } : Graph.Outputs)
      else
        let scaled ← Picture.scaled video options.size.height
        return { extras with video := some scaled, audio := audio }) g
      fun out g' => ∃ last, g'.chains = g.chains ++ last ∧
        Finishes options video last ∧
        (g.chains = [] → last = [] ∧ out.video = none) := by
  simp only [Finishes, hkind]
  refine .bind (.get (Q := fun seen g' => seen = g' ∧ g' = g) ⟨rfl, rfl⟩)
    fun seen g' ⟨hseen, hg'⟩ => ?_
  subst hg' hseen
  split
  · exact .pure ⟨[], (List.append_nil _).symm, .inl rfl, fun _ => ⟨rfl, rfl⟩⟩
  · next hmany =>
      refine .bind (Adds.join (P := fun l new => new =
        [⟨[video], [.fitVideo options.size.height], [l]⟩]) (by decide)
        (fun _ => rfl) seen) fun l g' ⟨new, hchains, hnew⟩ => .pure ?_
      refine ⟨new, hchains, .inr ⟨l, hnew⟩, fun hnil => ?_⟩
      rw [FilterGraph.isEmpty, hnil] at hmany
      exact absurd rfl hmany

theorem Export.Graph.build_one (plan : Plan) (h : p.ShowsOnly r q)
    (hpieces : plan.pieces = [q]) (hcamera : plan.camera = none)
    (hmicrophone : plan.microphone = none)
    (hspeed : Tempo.keeps q.speed = true)
    (hgain : (p.edits.mix.system - 1).abs < Sound.gainTolerance)
    (options : Options) :
    Meets excuse (Graph.build p options plan) {} fun out g =>
      ∃ shown heard last video, TrimsOnce options q g shown heard last video ∧
        (plan.fast = true → shown = [] ∧ heard = [] ∧
          (options.format.kind ≠ .animation → last = [] ∧ out.video = none)) := by
  refine .bind (inputs_meets plan) fun extras g ⟨hstart, hregistered⟩ => ?_
  have hextra {file : Option Json} {k : Option Nat} (hfile : file = none)
      (hnumber : Numbered g.inputs file k) : k = none := by
    subst hfile
    cases k with
    | none => rfl
    | some k => cases hnumber
  -- Without a camera and a microphone their stages leave their label alone.
  obtain ⟨camera, microphone⟩ := extras
  obtain rfl : camera = none := hextra hcamera hregistered.camera
  obtain rfl : microphone = none := hextra hmicrophone hregistered.microphone
  have hpicture : Adds excuse (picture p plan none) _ := picture_one h hpieces
  have hsound : Adds excuse (sound p plan none) _ :=
    sound_one hpieces hmicrophone hspeed hgain
  cases hkind : options.format.kind with
  | sound =>
      refine .bind (hsound g) fun audio g' ⟨heard, hchains, hheard, hfast⟩ => ?_
      refine .pure ⟨[], heard, [], .input 0 .video, ⟨?_, .inl ⟨rfl, rfl⟩, hheard,
        ?_⟩, fun h => ⟨rfl, hfast h, fun _ => ⟨rfl, rfl⟩⟩⟩
      · rw [hchains, hstart, List.append_nil]
      · simp only [Finishes, hkind]
  | animation =>
      refine .bind (hpicture g) fun video g' ⟨shown, hchains, hshown, hfast⟩ => ?_
      refine .bind (Picture.animated_finishes hkind video g')
        fun scaled g'' ⟨last, hmore, hlast⟩ => ?_
      refine .pure ⟨shown, [], last, video, ⟨?_, hshown, ⟨_, .inl ⟨rfl, rfl⟩⟩,
        hlast⟩, fun h => ⟨hfast h, rfl, fun hnot => absurd rfl hnot⟩⟩
      rw [hmore, hchains, hstart, List.append_nil, List.nil_append]
  | video =>
      refine .bind (hpicture g) fun video g₁ ⟨shown, hchains, hshown, hfast⟩ => ?_
      refine .bind (hsound g₁) fun audio g₂ ⟨heard, hmore, hheard, hquiet⟩ => ?_
      refine (finish_video hkind g₂).imp
        fun out g₃ ⟨last, hrest, hlast, hnone⟩ => ?_
      have hall : g₂.chains = shown ++ heard := by
        rw [hmore, hchains, hstart, List.nil_append]
      refine ⟨shown, heard, last, video, ⟨by rw [hrest, hall], hshown, hheard,
        hlast⟩, fun h => ⟨hfast h, hquiet h, fun _ => hnone ?_⟩⟩
      rw [hall, hfast h, hquiet h]
      rfl

end Stages

/-- The sound of a plain stretch keeps its tempo. -/
theorem Project.keeps_of_showsOnly {p : Project} {r : Range} {q : Piece}
    (hfinite : p.HasFiniteEdits)
    (h : p.ShowsOnly r q) : Tempo.keeps q.speed = true := by
  have hq : q.IsFinite :=
    p.pieces_finite hfinite q (by rw [h.pieces]; exact List.mem_singleton.2 rfl)
  have hclose : (q.speed - 1).abs < speedTolerance := by
    rw [distance_lt_iff_not_lt hq.speed, Binary64.not_lt
      (isNaN_of_isFinite speedTolerance_finite)
      (by rw [isNaN_abs]; exact isNaN_sub hq.speed (by decide +kernel))]
    exact h.speed
  rw [Tempo.keeps, decide_eq_true hclose, Bool.or_true]

namespace Export

variable {p : Project} {r : Range} {q : Piece} {screenHasAudio : Bool}

/-- The input of a plain stretch is read from where it begins to where it ends,
and no graph follows unless the export is an animated image. -/
theorem Command.args_of_fast {plan : Plan}
    (hplan : plan = Plan.ofProject p screenHasAudio) (hfast : plan.fast = true)
    (hranges : p.ranges = [r]) (h : p.ShowsOnly r q) {options : Options}
    (hbuild : Meets False (Graph.build p options plan) {} fun out g =>
      options.format.kind ≠ .animation → g.chains = [] ∧ out.video = none)
    (platform : Platform) (output : String) :
    ∃ body, Command.args p options platform plan output =
        .ok (["-ss", r.start.toPlain, "-to", r.stop.toPlain, "-i",
          p.screen.display] ++ body ++ ["-y", output]) ∧
      (options.format.kind ≠ .animation → "-filter_complex" ∉ body) := by
  have hargs := Command.args_of_meets
    (hbuild.and (Graph.build_inputs p options plan)) platform output
  split at hargs
  · next words hwords =>
      obtain ⟨outputs, g, ⟨hempty, hread, _⟩, rfl⟩ := hargs
      refine ⟨bodyArgs g outputs options
        (Encoder.ofFormat options.format platform), ?_, fun hkind hmem => ?_⟩
      · have hinputs : g.inputs =
            [⟨p.screen.display, some r.start, some r.stop⟩] := by
          rw [hread, Plan.extraInputs, Plan.screenInput, hfast]
          subst hplan
          simp [Plan.ofProject, hranges, h.camera, h.microphone]
        rw [hwords, hinputs]
        rfl
      · obtain ⟨hchains, hvideo⟩ := hempty hkind
        rcases mem_bodyArgs hmem with hfree | ⟨_, hgraph⟩
        · exact hfree (by decide)
        · unfold ShowsGraph at hgraph
          cases hshape : options.format.kind with
          | sound =>
              rw [hshape, FilterGraph.isEmpty, hchains] at hgraph
              cases hgraph
          | animation => exact hkind hshape
          | video =>
              rw [hshape, hvideo] at hgraph
              cases hgraph
  · exact hargs.elim

/-- An export that is read from one stretch loses nothing by it: there is no
graph but the one that makes an animated image, and a graph that is built all
the same trims the picture and the sound of the screen, if it does that. -/
structure ReadsStretch (p : Project) (options : Options) (platform : Platform)
    (output : String) (plan : Plan) (r : Range) (q : Piece) : Prop where
  shows : p.ShowsOnly r q
  graph : Meets False (Graph.build p options plan) {} fun _ g =>
    if options.format.kind = .animation then
      Finishes options (.input 0 .video) g.chains
    else g.chains = []
  words : ∃ body, Command.args p options platform plan output =
      .ok (["-ss", r.start.toPlain, "-to", r.stop.toPlain, "-i",
        p.screen.display] ++ body ++ ["-y", output]) ∧
    (options.format.kind ≠ .animation → "-filter_complex" ∉ body)
  otherwise : Meets False (Graph.build p options { plan with fast := false }) {}
    fun _ g => ∃ shown heard last video,
      TrimsOnce options q g shown heard last video

/-- An export that is not read from one stretch reads its files from the
beginning, and nothing in its arguments seeks. -/
structure ReadsAll (p : Project) (options : Options) (platform : Platform)
    (output : String) (plan : Plan) : Prop where
  words : p.Usable → ∃ words,
    Command.args p options platform plan output = .ok words
  unsought : ∀ words,
    Command.args p options platform plan output = .ok words → ∃ body,
      words = (p.screen :: ((ifGiven p.camera).toList ++
        (ifGiven p.microphone).toList)).flatMap (fun path =>
          ["-i", path.display]) ++ body ++ ["-y", output] ∧
      "-ss" ∉ body ∧ "-to" ∉ body

theorem readsStretch_of_fast (hfinite : p.HasFiniteEdits) {plan : Plan}
    (hplan : plan = Plan.ofProject p screenHasAudio) (hfast : plan.fast = true)
    (options : Options) (platform : Platform) (output : String) :
    ∃ r q, ReadsStretch p options platform output plan r q := by
  subst hplan
  obtain ⟨r, q, hranges, h, hgain⟩ := Plan.showsOnly_of_fast hfinite hfast
  have hkeeps := Project.keeps_of_showsOnly hfinite h
  have hbuild : Meets False _ _ _ := Graph.build_one
    (Plan.ofProject p screenHasAudio) h h.pieces h.camera h.microphone hkeeps
    hgain options
  have hother : Meets False _ _ _ := Graph.build_one
    { Plan.ofProject p screenHasAudio with fast := false } h h.pieces h.camera
    h.microphone hkeeps hgain options
  refine ⟨r, q, h, hbuild.imp fun out g hg => ?_, ?_, hother.imp
    fun out g hg => ?_⟩
  · obtain ⟨shown, heard, last, video, htrims, hquiet⟩ := hg
    obtain ⟨rfl, rfl, hlast⟩ := hquiet hfast
    have hchains := htrims.chains
    rw [List.append_nil, List.nil_append] at hchains
    have hvideo : video = .input 0 .video := by
      rcases htrims.picture with ⟨hvideo, _⟩ | hnil
      · exact hvideo
      · cases hnil
    split
    · rw [hchains, ← hvideo]
      exact htrims.finish
    · next hkind => rw [hchains, (hlast hkind).1]
  · refine Command.args_of_fast rfl hfast hranges h
      (hbuild.imp fun out g hg hkind => ?_) platform output
    obtain ⟨shown, heard, last, video, htrims, hquiet⟩ := hg
    obtain ⟨rfl, rfl, hlast⟩ := hquiet hfast
    obtain ⟨rfl, hvideo⟩ := hlast hkind
    exact ⟨htrims.chains, hvideo⟩
  · obtain ⟨shown, heard, last, video, htrims, _⟩ := hg
    exact ⟨shown, heard, last, video, htrims⟩

/-- An export is read from one stretch only where that loses no edit, and
nothing is sought in any other export. -/
theorem fast_loses_nothing (p : Project) (screenHasAudio : Bool)
    (options : Options) (platform : Platform) (output : String)
    (hfinite : p.HasFiniteEdits) :
    ((Plan.ofProject p screenHasAudio).fast = true → ∃ r q,
      ReadsStretch p options platform output
        (Plan.ofProject p screenHasAudio) r q) ∧
    ((Plan.ofProject p screenHasAudio).fast = false →
      ReadsAll p options platform output (Plan.ofProject p screenHasAudio)) := by
  refine ⟨fun hfast => readsStretch_of_fast hfinite rfl hfast options platform
    output, fun hfast => ⟨fun husable => ?_, fun words hwords =>
      Command.args_unsought hfast platform output hwords⟩⟩
  have hargs := Command.args_of_meets
    (Graph.build_account p options (Plan.ofProject p screenHasAudio)
      p.pieces_ne_nil) platform output
  split at hargs
  · next words hwords => exact ⟨words, hwords⟩
  · exact absurd husable hargs

/-- A recording of which the middle is shown. -/
def middleOnly : Project := Project.screenOnly 20 [⟨.null, 5, 15, true⟩] []

theorem fast_middleOnly : (Plan.ofProject middleOnly true).fast = true := by
  have hranges : middleOnly.ranges = [⟨5, 15⟩] :=
    Range.sort_of_sorted (by decide +kernel) (List.pairwise_singleton _ _)
  have hpieces : middleOnly.pieces = [⟨5, 15, 1, none⟩] := by
    rw [Project.pieces, Project.cutPieces, hranges,
      Edits.piecesOf_of_sorted (by decide +kernel)]
    decide +kernel
  have hplain : isPlainStretch middleOnly ⟨5, 15⟩ = true := by
    rw [isPlainStretch, hpieces]
    decide +kernel
  rw [Plan.ofProject, hranges]
  exact hplain

/-- The middle of a recording is read from one stretch. -/
theorem fast_loses_nothing_middle :
    middleOnly.HasFiniteEdits ∧ (Plan.ofProject middleOnly true).fast = true ∧
    ∃ r q, ReadsStretch middleOnly {} .other "out.mp4"
      (Plan.ofProject middleOnly true) r q := by
  have htimes : middleOnly.HasFiniteTimes := by
    refine Project.screenOnly_hasFiniteTimes (by decide +kernel) ?_
      fun _ h => nomatch h
    simp only [List.forall_mem_cons]
    decide +kernel
  have hfinite : middleOnly.HasFiniteEdits := ⟨htimes, fun _ h => nomatch h⟩
  exact ⟨hfinite, fast_middleOnly, (fast_loses_nothing middleOnly true {} .other
    "out.mp4" hfinite).1 fast_middleOnly⟩

end Export

end Cutlist
