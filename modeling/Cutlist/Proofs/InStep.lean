import Cutlist.Proofs.Constancy
import Cutlist.Proofs.Tolerance
import Cutlist.Proofs.TrimmedStages
import Cutlist.Proofs.WiredExport

/-!
# Picture and sound follow the same timeline

Whether the picture is cut and whether the sound is cut are decided in two
places and by different comparisons: the picture is cut when the timeline is
anything but the whole recording, the sound unless its timeline leaves it
untouched. The two could disagree and put sound and picture out of step. They
never do so by a tolerance. They disagree in one case, where there is nothing
for the sound to follow: a timeline of one piece that is edited by a zoom alone,
or that begins before the recording does.
-/

namespace Cutlist

open FilterGraph Render Export Binary64 Timeline

/-- No pad is trimmed, but for the sound of the microphone that a shift has
made a pad. -/
def SparesPads (project : Project) (chains : List Chain)
    (microphone : Option Nat) : Prop :=
  ∀ name, Uncut chains (.pad name) ∨
    ∃ k, microphone = some k ∧ InStepWith project chains k (.pad name)

/-- What the chains of the sound trim: the sound of the screen recording and
that of the microphone unless the timeline leaves sound untouched. -/
structure Hears (project : Project) (plan : Plan) (chains : List Chain)
    (microphone : Option Nat) : Prop where
  screen : Treated (!Sound.isUntouched plan.pieces (some project.duration))
    chains .audio (.input 0 .audio) plan.pieces
  voice : ∀ k, microphone = some k → ∃ voice, InStepWith project chains k voice ∧
    Treated (!Sound.isUntouched plan.pieces (some project.duration)) chains
      .audio voice plan.pieces
  pads : SparesPads project chains microphone

/-- Chains around those of the sound do not matter when they trim nothing but
pictures. -/
theorem Hears.append {project : Project} {plan : Plan} {chains : List Chain}
    {microphone : Option Nat} (h : Hears project plan chains microphone)
    {before after : List Chain}
    (hbefore : ∀ l, (∀ k, l ≠ .input k .video) → Uncut before l)
    (hafter : ∀ l, Uncut after l) :
    Hears project plan (before ++ chains ++ after) microphone where
  screen :=
    (h.screen.append_left (hbefore _ fun k =>
      (Label.video_ne_audio k 0).symm)).append_right (hafter _)
  voice := by
    intro k hk
    obtain ⟨voice, hstep, hvoice⟩ := h.voice k hk
    exact ⟨voice, hstep.append before after,
      (hvoice.append_left (hbefore voice hstep.ne_video)).append_right
        (hafter voice)⟩
  pads := by
    intro name
    rcases h.pads name with huncut | ⟨k, hk, hstep⟩
    · have hspared := hbefore (.pad name) fun k =>
        Label.pad_ne_input name k .video
      exact .inl ((hspared.append huncut).append (hafter _))
    · exact .inr ⟨k, hk, hstep.append before after⟩

namespace Export.Graph

section Stages

variable {project : Project} {plan : Plan}

/-! ## What the picture and the sound trim -/

theorem cut_adds {excuse : Prop} (hfast : plan.fast = false)
    (hne : plan.pieces ≠ []) :
    Adds excuse (cut project plan) fun _ new =>
      Treated plan.edited new .video (.input 0 .video) plan.pieces ∧
        TrimsOnly (.input 0 .video) new := by
  rw [cut, hfast, Bool.not_false, Bool.true_and]
  split
  · next hedited =>
      rw [hedited]
      exact Picture.timeline_adds _ hne
  · next hedited =>
      rw [Bool.not_eq_true] at hedited
      rw [hedited]
      exact .pure ⟨.nil, fun _ _ => .nil⟩

theorem overlaid_adds (base : Label) (camera : Option Nat) :
    Adds (¬ project.Usable) (overlaid project base camera) fun _ new =>
      ∀ other, (∀ k, camera = some k → other ≠ .input k .video) →
        Uncut new other := by
  cases camera with
  | none => exact .pure fun _ _ => .nil
  | some k =>
      refine (Picture.withCamera_adds _
        fun hoffset husable => hoffset husable.cameraOffset).imp
        fun _ new honly other hother => honly other (hother k rfl)

theorem withAnnotations_still (l : Label) :
    Still (¬ project.Usable) (Picture.withAnnotations l project) := by
  refine .foldlM (fun _ new => ∀ source, Uncut new source)
    (fun l new a ha hnew => ?_) fun _ => .nil
  exact (Picture.annotate_still (Project.not_usable_of_color ha)
    (Project.not_usable_of_caption ha) l).imp fun _ more hmore source =>
      (hnew source).append (hmore source)

theorem picture_adds (hfast : plan.fast = false) (hne : plan.pieces ≠ [])
    {camera : Option Nat} (hcamera : camera ≠ some 0) :
    Adds (¬ project.Usable) (picture project plan camera) fun _ new =>
      Treated plan.edited new .video (.input 0 .video) plan.pieces ∧
        ∀ other, other ≠ .input 0 .video →
          (∀ k, camera = some k → other ≠ .input k .video) →
            Uncut new other := by
  refine .bind (cut_adds hfast hne) fun base shown ⟨hshown, honly⟩ => ?_
  refine .bind (overlaid_adds base camera) fun overlaid covered hcovered => ?_
  refine (withAnnotations_still overlaid).imp fun _ drawn hdrawn => ?_
  have hscreen : Uncut covered (.input 0 .video) := by
    refine hcovered _ fun k hk heq => hcamera ?_
    rw [hk, (Label.input.inj heq).1]
  exact ⟨hshown.append_right (hscreen.append (hdrawn _)),
    fun other hother hcam => (honly other hother).append
      ((hcovered other hcam).append (hdrawn other))⟩

/-- The sound of the screen recording is heard alone. -/
theorem hears_alone {heard : List Chain}
    (hheard : Treated (!Sound.isUntouched plan.pieces (some project.duration))
      heard .audio (.input 0 .audio) plan.pieces)
    (honly : TrimsOnly (.input 0 .audio) heard) :
    Hears project plan heard none where
  screen := hheard
  voice := by
    intro k hk
    cases hk
  pads := fun name => .inl (honly _ (Label.pad_ne_input name 0 .audio))

/-- Two sounds are heard. Neither trims the streams of the other, and what
mixes them trims nothing. -/
theorem hears_both {heard said mixed : List Chain} {k : Nat} {voice : Label}
    (hnumber : k ≠ 0)
    (hheard : Treated (!Sound.isUntouched plan.pieces (some project.duration))
      heard .audio (.input 0 .audio) plan.pieces)
    (honly : TrimsOnly (.input 0 .audio) heard)
    (hvoice : InStepWith project said k voice)
    (hsaid : Treated (!Sound.isUntouched plan.pieces (some project.duration))
      said .audio voice plan.pieces)
    (hothers : ∀ other, other ≠ .input k .audio → other ≠ voice →
      Uncut said other)
    (hmixed : ∀ source, Uncut mixed source) :
    Hears project plan (heard ++ (said ++ mixed)) (some k) := by
  have hapart : voice ≠ .input 0 .audio := by
    rcases hvoice with ⟨_, rfl⟩ | ⟨hpad, _⟩
    · exact fun heq => hnumber (Label.input.inj heq).1
    · rintro rfl
      cases hpad
  have hscreen : Uncut said (.input 0 .audio) :=
    hothers _ (fun heq => hnumber (Label.input.inj heq).1.symm) hapart.symm
  have hstep : InStepWith project (heard ++ (said ++ mixed)) k voice := by
    have := hvoice.append heard mixed
    rwa [List.append_assoc] at this
  refine ⟨hheard.append_right (hscreen.append (hmixed _)),
    fun k' hk' => ⟨voice, ?_, ?_⟩, fun name => ?_⟩
  · cases hk'
    exact hstep
  · exact (hsaid.append_right (hmixed voice)).append_left (honly voice hapart)
  · by_cases hname : Label.pad name = voice
    · exact .inr ⟨k, rfl, by rw [hname]; exact hstep⟩
    · exact .inl ((honly _ (Label.pad_ne_input name 0 .audio)).append
        ((hothers _ (Label.pad_ne_input name k .audio) hname).append (hmixed _)))

/-- What the sound of an export trims when it contains that of the screen. -/
theorem sound_adds (hfast : plan.fast = false) (hne : plan.pieces ≠ [])
    (hsound : plan.screenHasAudio = true) {microphone : Option Nat}
    (hpresent : plan.microphone.isSome = microphone.isSome)
    (hmicrophone : microphone ≠ some 0) :
    Adds (¬ project.Usable) (sound project plan microphone) fun _ new =>
      Hears project plan new microphone ∧ ∀ k, Uncut new (.input k .video) := by
  have htimeline : plan.timeline = some plan.pieces := by
    rw [Plan.timeline, hfast]
    rfl
  rw [sound, htimeline, Plan.sources, hsound, hpresent, Sound.output_eq]
  cases microphone with
  | none =>
      refine .map ?_
      refine (Sound.screen_adds project hne).imp fun _ heard htreated => ?_
      obtain ⟨hheard, honly⟩ := htreated
      exact ⟨hears_alone hheard honly,
        fun k => honly _ (Label.video_ne_audio k 0)⟩
  | some k =>
      refine .bind (Sound.screen_adds project hne)
        fun screen heard htreated => ?_
      obtain ⟨hheard, honly⟩ := htreated
      refine .bind (Sound.microphone_adds k hne
        fun hoffset husable => hoffset husable.microphoneOffset)
        fun spoken said htreated => ?_
      obtain ⟨voice, hvoice, hsaid, hothers⟩ := htreated
      refine .map ?_
      refine (Sound.mixed_still screen spoken).imp fun _ mixed hmixed => ?_
      have hnumber : k ≠ 0 := fun hzero => hmicrophone (congrArg some hzero)
      refine ⟨hears_both hnumber hheard honly hvoice hsaid hothers hmixed,
        fun j => ?_⟩
      have hspared : Uncut said (.input j .video) :=
        hothers _ (Label.video_ne_audio j k) (hvoice.ne_video j).symm
      exact (honly _ (Label.video_ne_audio j 0)).append
        (hspared.append (hmixed _))

/-- What a whole export trims: the picture when the timeline is edited, and
what its sound trims. -/
theorem build_treats {options : Options} (hkind : options.format.kind = .video)
    (hfast : plan.fast = false) (hne : plan.pieces ≠ [])
    (hsound : plan.screenHasAudio = true) :
    Meets (¬ project.Usable) (build project options plan) {} fun out g =>
      Treated plan.edited g.chains .video (.input 0 .video) plan.pieces ∧
        Hears project plan g.chains out.microphone := by
  refine .bind (inputs_meets plan) fun extras g hinputs => ?_
  obtain ⟨hchains, hregistered⟩ := hinputs
  have hpresent : plan.microphone.isSome = extras.microphone.isSome := by
    have := hregistered.microphone
    revert this
    cases plan.microphone <;> cases extras.microphone <;> simp [Numbered]
  rw [hkind]
  have hadds : Adds (¬ project.Usable) (do
      let video ← picture project plan extras.camera
      let audio ← sound project plan extras.microphone
      if (← get).isEmpty then return { extras with audio := audio }
      else
        let scaled ← Picture.scaled video options.size.height
        return { extras with video := some scaled, audio := audio })
      fun (out : Outputs) new => out.microphone = extras.microphone ∧
        Treated plan.edited new .video (.input 0 .video) plan.pieces ∧
        Hears project plan new extras.microphone := by
    refine .bind (picture_adds hfast hne hregistered.cameraApart)
      fun video shown htreated => ?_
    obtain ⟨hshown, hpicture⟩ := htreated
    refine .bind (sound_adds hfast hne hsound hpresent
      hregistered.microphoneApart) fun audio heard htreated => ?_
    obtain ⟨hheard, hspared⟩ := htreated
    -- Whatever is added now trims nothing, so what was treated stays so.
    have finished (more : List Chain) (hmore : ∀ source, Uncut more source) :
        Treated plan.edited (shown ++ (heard ++ more)) .video (.input 0 .video)
          plan.pieces ∧
        Hears project plan (shown ++ (heard ++ more)) extras.microphone := by
      refine ⟨hshown.append_right ((hspared 0).append (hmore _)), ?_⟩
      rw [← List.append_assoc]
      exact hheard.append (fun l hl => hpicture l (hl 0) fun k _ => hl k) hmore
    refine .ask (P := fun _ => True) (fun g => .get ⟨rfl, trivial⟩)
      fun seen _ => ?_
    split
    · exact .pure ⟨rfl, finished [] fun _ => .nil⟩
    · refine .bind (chain_still (by decide) rfl) fun scaled more hmore => .pure ?_
      rw [List.append_nil]
      exact ⟨rfl, finished more hmore⟩
  refine (hadds g).imp fun out g' hnew => ?_
  obtain ⟨new, hnew, hmicrophone, htreated⟩ := hnew
  rw [hchains, List.nil_append] at hnew
  rw [hnew, hmicrophone]
  exact htreated

end Stages

end Export.Graph

/-! ## The pieces are numbers -/

/-- The times and the speeds of a project are numbers. -/
structure Project.HasFiniteEdits (p : Project) : Prop extends
    p.HasFiniteTimes where
  speeds : ∀ e ∈ p.edits.speed, e.speed.isFinite = true

/-- All that decides how a piece is cut is a number. -/
structure Piece.IsFinite (q : Piece) : Prop where
  start : q.start.isFinite = true
  stop : q.stop.isFinite = true
  speed : q.speed.isFinite = true

theorem Timeline.speedAt_finite {effects : List SpeedEffect}
    (h : ∀ e ∈ effects, e.speed.isFinite = true) (t : Binary64) :
    (speedAt effects t).isFinite = true := by
  rw [speedAt]
  split
  · next e he => exact h e (List.mem_of_find?_eq_some he)
  · show (1 : Binary64).isFinite = true
    decide +kernel

theorem Project.pieces_finite {p : Project} (h : p.HasFiniteEdits) :
    ∀ q ∈ p.pieces, q.IsFinite := by
  have htimes := h.toHasFiniteTimes
  intro q hq
  rw [pieces] at hq
  split at hq
  · rw [List.mem_singleton] at hq
    subst hq
    exact ⟨htimes.whole.1, htimes.duration,
      show (1 : Binary64).isFinite = true by decide +kernel⟩
  · obtain ⟨r, hr, hpiece⟩ := List.mem_flatMap.1 hq
    obtain ⟨part, hpart, rfl⟩ := List.mem_map.1 hpiece
    have hfinite := allFinite_cuts htimes.allFinite_bounds
      (htimes.ranges r (List.mem_filter.1 hr).1)
    have hends := mem_of_mem_between hpart
    exact ⟨hfinite _ hends.1, hfinite _ hends.2, speedAt_finite h.speeds _⟩

/-! ## The two decisions -/

namespace Timeline

theorem timeTolerance_finite : timeTolerance.isFinite = true := by
  decide +kernel

/-- The distance from 0 is the number itself. -/
theorem ticks_sub_zero {a : Binary64} (ha : a.isFinite = true) :
    (a - 0).ticks = a.ticks := by
  have hzero : (0 : Binary64).isFinite = true := by decide +kernel
  have hticks : (0 : Binary64).ticks = 0 := by decide +kernel
  have hle := ticks_sub_le ha hzero ha (by omega)
  have hge := le_ticks_sub ha hzero ha (by omega)
  omega

section Decisions

variable {q : Piece} {duration : Binary64}

/-- What is not edited leaves the sound untouched. -/
theorem untouched_of_not_edited (hq : q.IsFinite)
    (hduration : duration.isFinite = true)
    (h : isEdited [q] ⟨0, duration⟩ = false) :
    Sound.isUntouched [q] (some duration) = true := by
  have hzero : (0 : Binary64).isFinite = true := by decide +kernel
  have htolerance := isNaN_of_isFinite timeTolerance_finite
  simp only [isEdited, Bool.or_eq_false_iff, decide_eq_false_iff_not] at h
  obtain ⟨⟨⟨hstart, hstop⟩, hspeed⟩, _⟩ := h
  simp only [Sound.isUntouched, Option.all_some, Bool.and_eq_true,
    decide_eq_true_eq]
  refine ⟨⟨?_, ?_⟩, (distance_lt_iff_not_lt hq.speed).2 hspeed⟩
  · rw [lt_iff_ticks htolerance (by rw [isNaN_abs]; exact isNaN_sub hq.start hzero),
      ticks_abs, ticks_sub_zero hq.start] at hstart
    rw [le_iff_ticks (isNaN_of_isFinite hq.start) htolerance]
    omega
  · rwa [not_lt htolerance
      (by rw [isNaN_abs]; exact isNaN_sub hq.stop hduration)] at hstop

/-- What is edited and leaves the sound untouched is edited by a zoom, or
begins before the recording. -/
theorem edited_by_of_untouched (hq : q.IsFinite)
    (hduration : duration.isFinite = true)
    (hedited : isEdited [q] ⟨0, duration⟩ = true)
    (huntouched : Sound.isUntouched [q] (some duration) = true) :
    (q.stop - duration).abs ≤ timeTolerance ∧ q.start ≤ timeTolerance ∧
      (q.speed - 1).abs < speedTolerance ∧
      (q.zoom.isSome = true ∨ q.start < -timeTolerance) := by
  have hzero : (0 : Binary64).isFinite = true := by decide +kernel
  have htolerance := isNaN_of_isFinite timeTolerance_finite
  have hstart := isNaN_of_isFinite hq.start
  simp only [Sound.isUntouched, Option.all_some, Bool.and_eq_true,
    decide_eq_true_eq] at huntouched
  obtain ⟨⟨hbegin, hend⟩, hspeed⟩ := huntouched
  refine ⟨hend, hbegin, hspeed, ?_⟩
  simp only [isEdited, Bool.or_eq_true, decide_eq_true_eq] at hedited
  rcases hedited with ((hfar | hfar) | hfar) | hzoom
  · refine .inr ?_
    rw [lt_iff_ticks htolerance
      (by rw [isNaN_abs]; exact isNaN_sub hq.start hzero), ticks_abs,
      ticks_sub_zero hq.start] at hfar
    rw [le_iff_ticks hstart htolerance] at hbegin
    rw [lt_iff_ticks hstart
      (isNaN_of_isFinite ((isFinite_neg _).trans timeTolerance_finite)),
      ticks_neg]
    omega
  · rw [← not_lt htolerance
      (by rw [isNaN_abs]; exact isNaN_sub hq.stop hduration)] at hend
    exact absurd hfar hend
  · exact absurd hfar ((distance_lt_iff_not_lt hq.speed).1 hspeed)
  · exact .inl hzoom

end Decisions

end Timeline

/-! ## In step -/

/-- Neither the picture nor the sound of the screen recording is trimmed. -/
def BothWhole (chains : List Chain) : Prop :=
  Uncut chains (.input 0 .video) ∧ Uncut chains (.input 0 .audio)

/-- The picture and the sound of the screen recording are trimmed to the same
pieces. -/
def BothCut (chains : List Chain) (pieces : List Piece) : Prop :=
  CutAlong chains .video (.input 0 .video) pieces ∧
    CutAlong chains .audio (.input 0 .audio) pieces

/-- The picture alone is trimmed, to one piece that is all of the recording but
for a zoom or for a beginning before the recording's. -/
def PictureCut (chains : List Chain) (p : Project) : Prop :=
  ∃ q, p.pieces = [q] ∧ (q.stop - p.duration).abs ≤ timeTolerance ∧
    q.start ≤ timeTolerance ∧ (q.speed - 1).abs < speedTolerance ∧
    (q.zoom.isSome = true ∨ q.start < -timeTolerance) ∧
    CutAlong chains .video (.input 0 .video) p.pieces ∧
    Uncut chains (.input 0 .audio)

/-- Exactly one of three holds. -/
def ExactlyOne (a b c : Prop) : Prop :=
  (a ∧ ¬ b ∧ ¬ c) ∨ (¬ a ∧ b ∧ ¬ c) ∨ (¬ a ∧ ¬ b ∧ c)

/-- The sound of the microphone, once it is in step, is trimmed just when that
of the screen recording is, and to the same pieces. -/
def VoiceFollows (p : Project) (chains : List Chain) (k : Nat) : Prop :=
  ∃ voice, InStepWith p chains k voice ∧
    (Uncut chains (.input 0 .audio) → Uncut chains voice) ∧
    (CutAlong chains .audio (.input 0 .audio) p.pieces →
      CutAlong chains .audio voice p.pieces)

theorem edited_of_not_untouched {p : Project} (h : p.HasFiniteEdits)
    (huntouched : Sound.isUntouched p.pieces (some p.duration) = false) :
    isEdited p.pieces p.whole = true := by
  have hduration := h.toHasFiniteTimes.duration
  have hfinite := p.pieces_finite h
  rcases hpieces : p.pieces with _ | ⟨q, _ | ⟨q', more⟩⟩
  · rfl
  · rw [hpieces] at huntouched hfinite
    by_contra hplain
    rw [Bool.not_eq_true] at hplain
    rw [untouched_of_not_edited (hfinite q (List.mem_cons_self ..)) hduration
      hplain] at huntouched
    cases huntouched
  · rfl

theorem exactlyOne_of_treated {p : Project} (h : p.HasFiniteEdits)
    {chains : List Chain}
    (hpicture : Treated (isEdited p.pieces p.whole) chains .video
      (.input 0 .video) p.pieces)
    (hsound : Treated (!Sound.isUntouched p.pieces (some p.duration)) chains
      .audio (.input 0 .audio) p.pieces) :
    ExactlyOne (BothWhole chains) (BothCut chains p.pieces)
      (PictureCut chains p) := by
  have hne := p.pieces_ne_nil
  cases huntouched : Sound.isUntouched p.pieces (some p.duration) with
  | false =>
      rw [edited_of_not_untouched h huntouched] at hpicture
      rw [huntouched] at hsound
      have hshown : CutAlong chains .video (.input 0 .video) p.pieces := hpicture
      have hheard : CutAlong chains .audio (.input 0 .audio) p.pieces := hsound
      refine .inr (.inl ⟨fun hwhole => ?_, ⟨hshown, hheard⟩, ?_⟩)
      · exact hshown.not_uncut hne hwhole.1
      · rintro ⟨q, _, _, _, _, _, _, huncut⟩
        exact hheard.not_uncut hne huncut
  | true =>
      rw [huntouched] at hsound
      have hwhole : Uncut chains (.input 0 .audio) := hsound
      have hnotCut : ¬ BothCut chains p.pieces :=
        fun hcut => hcut.2.not_uncut hne hwhole
      cases hedited : isEdited p.pieces p.whole with
      | false =>
          rw [hedited] at hpicture
          have huncut : Uncut chains (.input 0 .video) := hpicture
          refine .inl ⟨⟨huncut, hwhole⟩, hnotCut, ?_⟩
          rintro ⟨q, _, _, _, _, _, hshown, _⟩
          exact hshown.not_uncut hne huncut
      | true =>
          rw [hedited] at hpicture
          have hshown : CutAlong chains .video (.input 0 .video) p.pieces :=
            hpicture
          refine .inr (.inr ⟨fun hboth => hshown.not_uncut hne hboth.1,
            hnotCut, ?_⟩)
          obtain ⟨q, hpieces⟩ := List.length_eq_one_iff.1
            (Sound.length_of_isUntouched huntouched)
          have hfinite := p.pieces_finite h q (by rw [hpieces]; simp)
          rw [hpieces] at hedited huntouched
          obtain ⟨hend, hbegin, hspeed, hby⟩ := edited_by_of_untouched hfinite
            h.toHasFiniteTimes.duration hedited huntouched
          exact ⟨q, hpieces, hend, hbegin, hspeed, hby, hshown, hwhole⟩

theorem voiceFollows_of_hears {p : Project} {plan : Plan}
    {chains : List Chain} {microphone : Option Nat}
    (hpieces : plan.pieces = p.pieces)
    (h : Hears p plan chains microphone) {k : Nat} (hk : microphone = some k) :
    VoiceFollows p chains k := by
  obtain ⟨voice, hstep, hvoice⟩ := h.voice k hk
  have hscreen := h.screen
  have hne := p.pieces_ne_nil
  rw [hpieces] at hscreen hvoice
  refine ⟨voice, hstep, fun huncut => ?_, fun hcut => ?_⟩
  · rw [Treated] at hscreen hvoice
    split at hscreen
    · exact absurd huncut (hscreen.not_uncut hne)
    · next h => rwa [if_neg h] at hvoice
  · rw [Treated] at hscreen hvoice
    split at hscreen
    · next h => rwa [if_pos h] at hvoice
    · exact absurd hscreen (hcut.not_uncut hne)

/-- In a video that is not read from one stretch of the recording, picture and
sound are both whole or both cut along the timeline; only when there is nothing
for the sound to follow is the picture cut alone. The microphone does what the
sound of the screen recording does, and nothing else that a chain ends in is
trimmed. -/
theorem build_inStep (project : Project) (options : Options)
    (hfinite : project.HasFiniteEdits) (hkind : options.format.kind = .video)
    (hfast : (Plan.ofProject project true).fast = false) :
    (∀ q ∈ project.pieces, (q.speed - 1).abs ≠ speedTolerance) ∧
    Meets (¬ project.Usable)
      (Graph.build project options (Plan.ofProject project true)) {}
      fun out g => ExactlyOne (BothWhole g.chains)
          (BothCut g.chains project.pieces) (PictureCut g.chains project) ∧
        (∀ path, ifGiven project.microphone = some path → ∃ k,
          out.microphone = some k ∧ Numbered g.inputs (some path) (some k) ∧
            VoiceFollows project g.chains k) ∧
        SparesPads project g.chains out.microphone := by
  refine ⟨fun q hq heq => ?_, ?_⟩
  · exact distance_ne_tolerance (project.pieces_finite hfinite q hq).speed
      (congrArg ticks heq)
  refine ((Graph.build_account project options _ project.pieces_ne_nil).and
    (Graph.build_treats hkind hfast project.pieces_ne_nil rfl)).imp
    fun out g ⟨⟨hregistered, _⟩, hpicture, hsound⟩ =>
      ⟨exactlyOne_of_treated hfinite hpicture hsound.screen,
        fun path hpath => ?_, hsound.pads⟩
  have hnumber : Numbered g.inputs (ifGiven project.microphone) out.microphone :=
    hregistered.microphone
  rw [hpath] at hnumber
  cases hk : out.microphone with
  | none =>
      rw [hk] at hnumber
      cases hnumber
  | some k =>
      rw [hk] at hnumber
      exact ⟨k, rfl, hnumber, voiceFollows_of_hears rfl hsound hk⟩

/-- Two segments with a shifted microphone are cut in step. -/
theorem build_inStep_shiftedVoice :
    (∀ q ∈ Graph.shiftedVoice.pieces, (q.speed - 1).abs ≠ speedTolerance) ∧
    Meets (¬ Graph.shiftedVoice.Usable)
      (Graph.build Graph.shiftedVoice {} (Plan.ofProject Graph.shiftedVoice true))
      {} fun out g => ExactlyOne (BothWhole g.chains)
          (BothCut g.chains Graph.shiftedVoice.pieces)
          (PictureCut g.chains Graph.shiftedVoice) ∧
        (∀ path, ifGiven Graph.shiftedVoice.microphone = some path → ∃ k,
          out.microphone = some k ∧ Numbered g.inputs (some path) (some k) ∧
            VoiceFollows Graph.shiftedVoice g.chains k) ∧
        SparesPads Graph.shiftedVoice g.chains out.microphone := by
  have hduration : Graph.shiftedVoice.duration.isFinite = true := by
    decide +kernel
  have hsegments : ∀ s ∈ Graph.shiftedVoice.edits.segments,
      s.start.isFinite = true ∧ s.stop.isFinite = true := by
    simp only [Graph.shiftedVoice, Project.screenOnly, List.forall_mem_cons]
    decide +kernel
  have htimes : Graph.shiftedVoice.HasFiniteTimes :=
    ⟨hduration, hsegments, (fun _ h => nomatch h), (fun _ h => nomatch h)⟩
  exact build_inStep Graph.shiftedVoice {} ⟨htimes, fun _ h => nomatch h⟩ rfl rfl

end Cutlist
