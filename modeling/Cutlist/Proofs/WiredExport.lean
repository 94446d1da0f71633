import Cutlist.Proofs.WiredStages
import Cutlist.Proofs.Tiling

/-!
# The graph of an export is wired

Whatever the edits of a project are, the graph of its export is well formed:
pads are produced once and before they are taken, streams belong to inputs, the
numbers of the inputs are those that the outputs give, and what is joined is
counted. And every pad is used once, with one exception that is stated exactly.
The sound of the microphone is a pad of its own when it was shifted against
that of the screen, and when a timeline of several pieces then takes it once
for each of them, nothing splits it first.
-/

namespace Cutlist

open FilterGraph Render Export

/-- The number under which a file is registered, if there is one. -/
def Numbered (ins : List Input) : Option Json → Option Nat → Prop
  | some path, some k => ins[k]?.map Input.path = some path.display
  | none, none => True
  | _, _ => False

/-- The inputs of a plan have the numbers that they should have; only that of
the screen recording is 0. -/
structure Registered (plan : Plan) (extras : Graph.Extras)
    (ins : List Input) : Prop where
  screen : Numbered ins (some plan.screen) (some 0)
  camera : Numbered ins plan.camera extras.camera
  microphone : Numbered ins plan.microphone extras.microphone
  cameraApart : extras.camera ≠ some 0
  microphoneApart : extras.microphone ≠ some 0

/-- A file that is given has a number. -/
theorem Numbered.of_some {ins : List Input} {path : Json} {number : Option Nat}
    (h : Numbered ins (some path) number) :
    ∃ k, number = some k ∧ Numbered ins (some path) (some k) := by
  cases number with
  | none => cases h
  | some k => exact ⟨k, rfl, h⟩

theorem Numbered.lt {ins : List Input} {file : Option Json} {k : Nat}
    (h : Numbered ins file (some k)) : k < ins.length := by
  cases file with
  | none => cases h
  | some path =>
      rw [Numbered, Option.map_eq_some_iff] at h
      obtain ⟨input, hinput, _⟩ := h
      exact (List.getElem?_eq_some_iff.1 hinput).1

theorem Numbered.append {ins : List Input} {file : Option Json}
    {number : Option Nat} (h : Numbered ins file number) (more : List Input) :
    Numbered (ins ++ more) file number := by
  cases file with
  | none => cases number <;> exact h
  | some path =>
      cases number with
      | none => exact h
      | some k =>
          have hk := h.lt
          rw [Numbered, List.getElem?_append_left hk]
          exact h

/-- The labels that go to the output. -/
def Export.Graph.Outputs.labels (out : Graph.Outputs) : List Label :=
  out.video.toList ++ out.audio.toList

/-- The sound of the microphone is heard, it is shifted against that of the
screen, and it is cut into several pieces. -/
def Project.CutsShiftedVoice (p : Project) (options : Options) : Prop :=
  options.format.kind ≠ .animation ∧ (ifGiven p.microphone).isSome = true ∧
    Sound.Shifted p ∧ 2 ≤ p.pieces.length

theorem Project.pieces_ne_nil (p : Project) : p.pieces ≠ [] := by
  rw [Project.pieces]
  split
  · exact List.cons_ne_nil _ _
  · next h => simpa using h

namespace FilterGraph.Wired

theorem again_ne_nil {l : Label} {n : Nat} :
    again l n ≠ [] ↔ l.isInput = false ∧ 0 < n := by
  rw [again]
  split
  · next h => simp [h]
  · next h =>
      rw [Ne, List.replicate_eq_nil_iff]
      simp [h, Nat.pos_iff_ne_zero]

end FilterGraph.Wired

section Export

variable {ins : List Input} {surplus rest : List Label} {g : FilterGraph}
variable {project : Project} {plan : Plan}

/-- The sound of an export takes a pad too often just when that is the shifted
sound of the microphone. -/
theorem Render.Sound.output_wired {excuse : Prop} {sources : AudioSources}
    {pieces : Option (List Piece)} {k : Nat}
    (hne : ∀ ps, pieces = some ps → ps ≠ []) (hscreen : 0 < ins.length)
    (hk : sources.hasMicrophone = true → k < ins.length)
    (hoffset : ¬ Offset.Readable project.microphoneOffset → excuse)
    (h : Wired ins surplus rest g) :
    Meets excuse (Sound.output sources pieces project k) g fun l g' =>
      ∃ more, Wired ins (more ++ surplus) (l.toList ++ rest) g' ∧
        (more ≠ [] ↔ sources.hasMicrophone = true ∧ Sound.Shifted project ∧
          0 < Sound.repeats pieces) := by
  rw [Sound.output_eq]
  cases sources with
  | none => exact .pure ⟨[], h, by simp [AudioSources.hasMicrophone]⟩
  | screenOnly =>
      refine .map ?_
      exact (Sound.screen_wired project hne hscreen h).imp fun l g' hl =>
        ⟨[], hl, by simp [AudioSources.hasMicrophone]⟩
  | microphoneOnly =>
      refine .map ?_
      refine (Sound.microphone_wired (hk rfl) hne hoffset h).imp
        fun l g' hmicrophone => ?_
      obtain ⟨voice, hvoice, hl⟩ := hmicrophone
      refine ⟨_, hl, ?_⟩
      rw [Wired.again_ne_nil, hvoice]
      simp [AudioSources.hasMicrophone]
  | both =>
      refine .bind (Sound.screen_wired project hne hscreen h)
        fun screen g₁ h₁ => ?_
      refine .bind (Sound.microphone_wired (hk rfl) hne hoffset h₁)
        fun microphone g₂ hmicrophone => ?_
      obtain ⟨voice, hvoice, h₂⟩ := hmicrophone
      refine .map ?_
      refine (Sound.mixed_linear screen microphone g₂ _ rest
        (h₂.perm (.swap ..))).imp fun l g₃ h₃ => ⟨_, h₃, ?_⟩
      rw [Wired.again_ne_nil, hvoice]
      simp [AudioSources.hasMicrophone]

namespace Export.Graph

/-! ## Inputs -/

/-- A file is registered behind the inputs that are there, if there is one. -/
theorem register_meets {excuse : Prop} (file : Option Json) {g : FilterGraph}
    (hne : g.inputs ≠ []) :
    Meets excuse (file.mapM fun path => addInput ⟨path.display, none, none⟩) g
      fun k g' => g'.chains = g.chains ∧ (∃ more, g'.inputs = g.inputs ++ more) ∧
        Numbered g'.inputs file k ∧ k ≠ some 0 := by
  refine .optionMapM (fun hnone => ?_) fun path hpath => ?_
  · subst hnone
    exact ⟨rfl, ⟨[], (List.append_nil _).symm⟩, trivial, fun h => nomatch h⟩
  · subst hpath
    refine .addInput ⟨rfl, ⟨_, rfl⟩, ?_, fun hzero => hne ?_⟩
    · rw [Numbered, List.getElem?_concat_length]
      rfl
    · exact List.length_eq_zero_iff.1 (Option.some.inj hzero)

theorem inputs_meets {excuse : Prop} (plan : Plan) :
    Meets excuse (inputs plan) {} fun extras g =>
      g.chains = [] ∧ Registered plan extras g.inputs := by
  have hpath : plan.screenInput.path = plan.screen.display := by
    rw [Plan.screenInput]
    split <;> rfl
  have hscreen : Numbered [plan.screenInput] (some plan.screen) (some 0) :=
    congrArg some hpath
  refine .bind (.addInput (Q := fun _ g =>
    g = { inputs := [plan.screenInput] }) rfl) fun _ g hg => ?_
  subst hg
  refine .bind (register_meets plan.camera (List.cons_ne_nil _ _))
    fun camera g₁ ⟨hchains, ⟨more, hmore⟩, hcamera, hcamera'⟩ => ?_
  have hne : g₁.inputs ≠ [] := by
    rw [hmore]
    exact List.cons_ne_nil _ _
  refine .bind (register_meets plan.microphone hne)
    fun microphone g₂ ⟨hchains', ⟨more', hmore'⟩, hmicrophone, hmicrophone'⟩ => ?_
  refine .pure ⟨hchains'.trans hchains, ?_, ?_, hmicrophone, hcamera',
    hmicrophone'⟩
  · rw [hmore', hmore]
    exact (hscreen.append more).append more'
  · rw [hmore']
    exact hcamera.append more'

/-! ## The picture -/

theorem cut_wired {excuse : Prop} (hscreen : 0 < ins.length)
    (hne : plan.pieces ≠ []) (h : Wired ins surplus rest g) :
    Meets excuse (cut project plan) g fun l g' =>
      Wired ins surplus (l :: rest) g' := by
  have hread := h.read hscreen .video
  rw [cut]
  split
  · refine (Picture.timeline_wired project.resolution hne hread).imp
      fun l g' hl => ?_
    rw [Wired.again_input rfl] at hl
    exact hl
  · exact .pure hread

theorem overlaid_linear {camera : Option Nat}
    (hcamera : ∀ k, camera = some k → k < ins.length) (base : Label) :
    Linear (¬ project.Usable) ins [base] (overlaid project base camera) := by
  cases camera with
  | none => exact .pass base
  | some k =>
      exact Picture.withCamera_linear (hcamera k rfl) _
        fun hoffset husable => hoffset husable.cameraOffset

theorem withAnnotations_linear (l : Label) :
    Linear (¬ project.Usable) ins [l] (Picture.withAnnotations l project) :=
  .foldlM (fun l _ ha => Picture.annotate_linear
    (Project.not_usable_of_color ha) (Project.not_usable_of_caption ha) l) l

theorem picture_wired (hscreen : 0 < ins.length) {camera : Option Nat}
    (hcamera : ∀ k, camera = some k → k < ins.length) (hne : plan.pieces ≠ [])
    (h : Wired ins surplus rest g) :
    Meets (¬ project.Usable) (picture project plan camera) g fun l g' =>
      Wired ins surplus (l :: rest) g' := by
  refine .bind (cut_wired hscreen hne h) fun base g₁ h₁ => ?_
  refine .bind (overlaid_linear hcamera base g₁ surplus rest h₁)
    fun overlaid g₂ h₂ => ?_
  exact withAnnotations_linear overlaid g₂ surplus rest h₂

/-! ## All of the graph -/

/-- A label that goes to the output is an input where there is no chain. -/
theorem isInput_of_isEmpty {live : List Label} (h : Wired ins surplus live g)
    (hempty : g.isEmpty = true) : ∀ l ∈ live, l.isInput = true := by
  intro l hl
  by_contra hpad
  have hmem := h.mem_produced hl (Bool.eq_false_iff.2 hpad)
  rw [produced, List.isEmpty_iff.1 hempty] at hmem
  cases hmem

theorem sound_wired (hne : plan.pieces ≠ []) {extras : Extras}
    (hregistered : Registered plan extras ins) (h : Wired ins surplus rest g) :
    Meets (¬ project.Usable) (sound project plan extras.microphone) g
      fun l g' => ∃ more, Wired ins (more ++ surplus) (l.toList ++ rest) g' ∧
        (more ≠ [] ↔ plan.sources.hasMicrophone = true ∧
          Sound.Shifted project ∧ 0 < Sound.repeats plan.timeline) := by
  refine Sound.output_wired (fun ps hps => ?_) hregistered.screen.lt
    (fun _ => ?_) (fun hoffset husable => hoffset husable.microphoneOffset) h
  · rw [Plan.timeline] at hps
    split at hps
    · cases hps
    · cases hps
      exact hne
  · have hmicrophone := hregistered.microphone
    revert hmicrophone
    cases extras.microphone with
    | none => exact fun _ => hregistered.screen.lt
    | some k => exact Numbered.lt

theorem build_account (project : Project) (options : Options) (plan : Plan)
    (hne : plan.pieces ≠ []) :
    Meets (¬ project.Usable) (build project options plan) {} fun out g =>
      Registered plan out.toExtras g.inputs ∧
      ∃ more, Wired g.inputs more out.labels g ∧
        (more ≠ [] ↔ options.format.kind ≠ .animation ∧
          plan.sources.hasMicrophone = true ∧ Sound.Shifted project ∧
          0 < Sound.repeats plan.timeline) := by
  refine .bind (inputs_meets plan) fun extras g ⟨hchains, hregistered⟩ => ?_
  have hstart := Wired.init hchains
  have hscreen := hregistered.screen.lt
  have hcamera : ∀ k, extras.camera = some k → k < g.inputs.length :=
    fun k hk => by
      have := hregistered.camera
      rw [hk] at this
      exact this.lt
  have finished (out : Outputs) {more : List Label} {g' : FilterGraph}
      (hextras : out.toExtras = extras)
      (hwired : Wired g.inputs more out.labels g') :
      Registered plan out.toExtras g'.inputs ∧
        Wired g'.inputs more out.labels g' := by
    rw [hextras, hwired.registered]
    exact ⟨hregistered, hwired⟩
  cases hkind : options.format.kind with
  | sound =>
      refine .bind (sound_wired hne hregistered hstart)
        fun audio g₁ ⟨more, h₁, hmore⟩ => .pure ?_
      rw [List.append_nil, List.append_nil] at h₁
      obtain ⟨hreg, hwired⟩ := finished { extras with audio := audio } rfl h₁
      exact ⟨hreg, more, hwired, by simpa using hmore⟩
  | animation =>
      refine .bind (picture_wired hscreen hcamera hne hstart)
        fun video g₁ h₁ => ?_
      refine .bind (Picture.animated_linear video _ _ g₁ [] [] h₁)
        fun scaled g₂ h₂ => .pure ?_
      obtain ⟨hreg, hwired⟩ :=
        finished { extras with video := some scaled } rfl h₂
      exact ⟨hreg, [], hwired, by simp⟩
  | video =>
      refine .bind (picture_wired hscreen hcamera hne hstart)
        fun video g₁ h₁ => ?_
      refine .bind (sound_wired hne hregistered h₁)
        fun audio g₂ ⟨more, h₂, hmore⟩ => ?_
      rw [List.append_nil] at h₂
      refine .bind (.get (Q := fun seen g' => seen = g' ∧ g' = g₂) ⟨rfl, rfl⟩)
        fun seen g' ⟨hseen, hg'⟩ => ?_
      subst hg' hseen
      have hvideo := h₂.perm List.perm_append_comm
      split
      · next hempty =>
          refine .pure ?_
          have hinput := isInput_of_isEmpty hvideo hempty
          obtain ⟨hreg, hwired⟩ := finished { extras with audio := audio } rfl
            (hvideo.unread fun l hl => hinput l (List.mem_append_left _ hl))
          exact ⟨hreg, more, hwired, by simpa using hmore⟩
      · refine .bind (Picture.scaled_linear video _ seen more _ hvideo)
          fun scaled g₃ h₃ => .pure ?_
        obtain ⟨hreg, hwired⟩ := finished
          { extras with video := some scaled, audio := audio } rfl h₃
        exact ⟨hreg, more, hwired, by simpa using hmore⟩

theorem hasMicrophone_ofPresence (screen microphone : Bool) :
    (AudioSources.ofPresence screen microphone).hasMicrophone = microphone := by
  cases screen <;> cases microphone <;> rfl

/-- Where there is a microphone, the timeline is always followed. -/
theorem timeline_ofProject {screenHasAudio : Bool}
    (h : (ifGiven project.microphone).isSome = true) :
    (Plan.ofProject project screenHasAudio).timeline = some project.pieces := by
  rw [Plan.timeline, if_neg]
  · rfl
  · rw [Plan.ofProject]
    simp [Option.isSome_iff_ne_none.1 h]

/-- The graph of an export is well formed, and every pad in it is used once
unless a shifted sound of the microphone is cut into several pieces. The graph
is there unless the project holds a value that no filter can be written for. -/
theorem build_wired (project : Project) (options : Options)
    (screenHasAudio : Bool) :
    Meets (¬ project.Usable)
      (build project options (Plan.ofProject project screenHasAudio)) {}
      fun out g => WellFormed g out.labels ∧
        Registered (Plan.ofProject project screenHasAudio) out.toExtras
          g.inputs ∧
        (UsedOnce g out.labels ↔ ¬ project.CutsShiftedVoice options) := by
  refine (build_account project options _ project.pieces_ne_nil).imp
    fun out g ⟨hregistered, more, hwired, hmore⟩ =>
      ⟨hwired.wellFormed, hregistered, ?_⟩
  rw [hwired.usedOnce_iff, ← not_iff_not, not_not, ← Ne, hmore,
    Project.CutsShiftedVoice]
  refine and_congr_right fun _ => ?_
  rw [Plan.sources, hasMicrophone_ofPresence]
  refine and_congr_right fun hmicrophone => and_congr_right fun _ => ?_
  rw [timeline_ofProject hmicrophone]
  change 0 < project.pieces.length - 1 ↔ _
  omega

/-- Two segments of a recording with a microphone that started late. -/
def shiftedVoice : Project :=
  { Project.screenOnly 10 [⟨.null, 0, 3, true⟩, ⟨.null, 5, 9, true⟩] [] with
    microphone := .text "microphone.m4a"
    microphoneOffset := .int 100 }

theorem ranges_shiftedVoice : shiftedVoice.ranges = [⟨0, 3⟩, ⟨5, 9⟩] :=
  Range.sort_of_sorted (by decide +kernel) (by decide +kernel)

theorem pieces_shiftedVoice :
    shiftedVoice.pieces = [⟨0, 3, 1, none⟩, ⟨5, 9, 1, none⟩] := by
  rw [Project.pieces, Project.cutPieces, ranges_shiftedVoice,
    Edits.piecesOf_of_sorted (by decide +kernel)]
  decide +kernel

theorem plan_shiftedVoice : Plan.ofProject shiftedVoice true =
    ⟨.text "screen.mp4", none, some (.text "microphone.m4a"), true,
      [⟨0, 3⟩, ⟨5, 9⟩], [⟨0, 3, 1, none⟩, ⟨5, 9, 1, none⟩], true, false⟩ := by
  rw [Plan.ofProject, ranges_shiftedVoice, pieces_shiftedVoice]
  rfl

/-- The shifted sound of the microphone is taken by both pieces. -/
theorem build_shiftedVoice :
    Meets False (build shiftedVoice {} (Plan.ofProject shiftedVoice true)) {}
      fun out g => ¬ UsedOnce g out.labels := by
  have htaken : Meets False
      (build shiftedVoice {} (Plan.ofProject shiftedVoice true)) {}
      fun out g => .pad "amicoffset0" ∈ g.produced ∧
        .pad "amicoffset0" ∉ out.labels ∧
        g.consumed.count (.pad "amicoffset0") = 2 := by
    rw [plan_shiftedVoice]
    decide +kernel
  refine htaken.imp fun out g ⟨hproduced, hresult, htwice⟩ hused => ?_
  have honce := hused.once _ hproduced hresult
  omega

end Export.Graph

end Export

end Cutlist
