import Cutlist.Proofs.PassedStages

/-!
# What a graph leaves open

The pads that no chain takes are what is left to go to the output. A picture
leaves one and a sound leaves one, and that is not obvious from the account of
pads alone: the shifted sound of the microphone may be taken more often than it
was made, and the account would allow the same of a result. Here a result is
found at the end of the chains of its own kind. Nothing up to there can take
it, since pads are made before they are taken, and nothing behind it takes a
label of its kind.
-/

namespace Cutlist

open FilterGraph Render Export

/-! ## The picture and the sound of a graph -/

/-- Every value that an export in a format of some kind uses of a project is one
that a filter can be written for. -/
structure Project.Writable (p : Project) (kind : Format.Kind) : Prop where
  cameraOffset : kind ≠ .sound → (ifGiven p.camera).isSome = true →
    Offset.Readable p.cameraOffset
  microphoneOffset : kind ≠ .animation → (ifGiven p.microphone).isSome = true →
    Offset.Readable p.microphoneOffset
  colors : kind ≠ .sound → ∀ a ∈ p.edits.annotations,
    Picture.isBrief (Picture.window a p.duration) = false →
      a.color.text?.isSome = true
  captions : kind ≠ .sound → ∀ a ∈ p.edits.annotations,
    Picture.isBrief (Picture.window a p.duration) = false →
      a.text.truthy = true → a.text.text?.isSome = true

/-- What is drawn in an export in a format of some kind. -/
def Project.drawings (p : Project) (kind : Format.Kind) : List Filter :=
  if kind = .sound then []
  else p.edits.annotations.flatMap (Picture.drawings p.duration)

/-- The sources of sound that an export in a format of some kind has. -/
def Export.Plan.heard (plan : Plan) (kind : Format.Kind) : AudioSources :=
  if kind = .animation then .none else plan.sources

namespace Export.Graph

/-- The chains of a graph: those of the picture, those of the sound, and the
last ones of the picture. -/
structure Laid (p : Project) (kind : Format.Kind) (plan : Plan) (out : Outputs)
    (chains shown heard last : List Chain) (video : Label) : Prop where
  chains : chains = shown ++ heard ++ last
  picture : Passes .video (p.drawings kind) (.input 0 .video) video shown
  sound : Sound.Heard (plan.heard kind) out.audio heard
  finish : Passes .video [] video (out.video.getD video) last
  unmade : out.video = none ↔ last = []
  unneeded : last = [] ↔ kind = .sound ∨
    kind = .video ∧ shown = [] ∧ heard = []
  unseen : kind = .sound → shown = []

section Stages

variable {excuse : Prop} {p : Project} {plan : Plan}

theorem cut_passes (hne : plan.pieces ≠ []) :
    Adds excuse (cut p plan) (Passes .video [] (.input 0 .video)) := by
  rw [cut]
  split
  · exact Picture.timeline_passes _ hne rfl
  · exact .pure (.refl rfl)

theorem overlaid_passes {camera : Option Nat}
    (hoffset : camera.isSome = true → ¬ Offset.Readable p.cameraOffset → excuse)
    {base : Label} (hbase : base.stream = .video) :
    Adds excuse (overlaid p base camera) (Passes .video [] base) := by
  cases camera with
  | none => exact .pure (.refl hbase)
  | some k => exact Picture.withCamera_passes _ (hoffset rfl) hbase rfl

theorem withAnnotations_passes
    (hcolor : ∀ a ∈ p.edits.annotations,
      Picture.isBrief (Picture.window a p.duration) = false →
        a.color.text? = none → excuse)
    (hcaption : ∀ a ∈ p.edits.annotations,
      Picture.isBrief (Picture.window a p.duration) = false →
        a.text.truthy = true → a.text.text? = none → excuse)
    {current : Label} (hcurrent : current.stream = .video) :
    Adds excuse (Picture.withAnnotations current p) (Passes .video
      (p.edits.annotations.flatMap (Picture.drawings p.duration)) current) := by
  have hall : ∀ (todo : List Annotation) (l : Label), l.stream = .video →
      (∀ a ∈ todo, a ∈ p.edits.annotations) →
      Adds excuse (todo.foldlM (Picture.annotate p.duration) l)
        (Passes .video (todo.flatMap (Picture.drawings p.duration)) l) := by
    intro todo
    induction todo with
    | nil => exact fun l hl _ => .pure (.refl hl)
    | cons a todo ih =>
        intro l hl hmem
        rw [List.foldlM_cons, List.flatMap_cons]
        have ha := hmem a (List.mem_cons_self ..)
        exact Passes.bind
          (Picture.annotate_passes (hcolor a ha) (hcaption a ha) hl)
          fun l' hl' => ih l' hl' fun b hb => hmem b (List.mem_cons_of_mem a hb)
  exact hall _ current hcurrent fun _ ha => ha

variable {kind : Format.Kind}

theorem picture_passes (hkind : kind ≠ .sound) (hne : plan.pieces ≠ [])
    {camera : Option Nat}
    (hcamera : camera.isSome = true → (ifGiven p.camera).isSome = true) :
    Adds (¬ p.Writable kind) (picture p plan camera)
      (Passes .video (p.drawings kind) (.input 0 .video)) := by
  rw [Project.drawings, if_neg hkind]
  refine Passes.bind (cut_passes hne) fun base hbase => ?_
  refine Passes.bind (d := []) (overlaid_passes (fun hsome hoffset hwritable =>
    hoffset (hwritable.cameraOffset hkind (hcamera hsome))) hbase)
    fun covered hcovered => ?_
  refine withAnnotations_passes (fun a ha hshown hnone hwritable => ?_)
    (fun a ha hshown htext hnone hwritable => ?_) hcovered
  · have hcolor := hwritable.colors hkind a ha hshown
    rw [hnone] at hcolor
    cases hcolor
  · have hcaption := hwritable.captions hkind a ha hshown htext
    rw [hnone] at hcaption
    cases hcaption

theorem timeline_ne_nil (hne : plan.pieces ≠ []) :
    ∀ ps, plan.timeline = some ps → ps ≠ [] := by
  intro ps hps
  rw [Plan.timeline] at hps
  split at hps
  · cases hps
  · cases hps
    exact hne

theorem sound_heard (hkind : kind ≠ .animation) (hne : plan.pieces ≠ [])
    (hmicrophone : plan.microphone = ifGiven p.microphone)
    (microphone : Option Nat) :
    Adds (¬ p.Writable kind) (sound p plan microphone)
      (Sound.Heard (plan.heard kind)) := by
  rw [Plan.heard, if_neg hkind]
  refine Sound.output_heard _ (timeline_ne_nil hne)
    fun hheard hoffset hwritable => hoffset ?_
  rw [Plan.sources, hasMicrophone_ofPresence, hmicrophone] at hheard
  exact hwritable.microphoneOffset hkind hheard

end Stages

/-- Nothing is last where nothing is made of the picture. -/
theorem finish_none {video : Label} (hvideo : video.stream = .video) :
    Passes .video [] video ((none : Option Label).getD video) [] := .refl hvideo

/-- A graph is laid out in chains of the picture and of the sound, and there is
one unless the export uses a value that no filter can be written for. -/
theorem build_laid (p : Project) (options : Options) (screenHasAudio : Bool) :
    Meets (¬ p.Writable options.format.kind)
      (build p options (Plan.ofProject p screenHasAudio)) {} fun out g =>
        ∃ shown heard last video, Laid p options.format.kind
          (Plan.ofProject p screenHasAudio) out g.chains shown heard last
          video := by
  have hne : (Plan.ofProject p screenHasAudio).pieces ≠ [] := p.pieces_ne_nil
  refine .bind (inputs_meets _) fun extras g ⟨hstart, hregistered⟩ => ?_
  have hcamera : extras.camera.isSome = true →
      (ifGiven p.camera).isSome = true := by
    intro hsome
    obtain ⟨k, hk⟩ := Option.isSome_iff_exists.1 hsome
    have hnumbered : Numbered g.inputs (ifGiven p.camera) extras.camera :=
      hregistered.camera
    rw [hk] at hnumbered
    cases hgiven : ifGiven p.camera with
    | none => rw [hgiven] at hnumbered; cases hnumbered
    | some path => rfl
  cases hkind : options.format.kind with
  | sound =>
      refine .bind (sound_heard (by decide : Format.Kind.sound ≠ _) hne rfl
        extras.microphone g)
        fun audio g₁ ⟨heard, hheard, hsound⟩ => .pure ?_
      refine ⟨[], heard, [], .input 0 .video, ?_, .refl rfl, hsound,
        finish_none rfl, by simp, by simp, fun _ => rfl⟩
      rw [hheard, hstart, List.append_nil]
  | animation =>
      refine .bind (picture_passes (by decide : Format.Kind.animation ≠ _) hne
        hcamera g)
        fun video g₁ ⟨shown, hshown, hpicture⟩ => ?_
      refine .bind (Picture.animated_passes _ _ hpicture.stream g₁)
        fun l g₂ ⟨last, hlast, hfinish, hnil⟩ => .pure ?_
      refine ⟨shown, [], last, video, ?_, hpicture, ⟨rfl, rfl⟩, hfinish,
        by simp [hnil], by simp [hnil], nofun⟩
      rw [hlast, hshown, hstart, List.nil_append, List.append_nil]
  | video =>
      have hpictured : Format.Kind.video ≠ .sound := by decide
      refine .bind (picture_passes hpictured hne hcamera g)
        fun video g₁ ⟨shown, hshown, hpicture⟩ => ?_
      refine .bind (sound_heard (by decide : Format.Kind.video ≠ _) hne rfl
        extras.microphone g₁) fun audio g₂ ⟨heard, hheard, hsound⟩ => ?_
      have hall : g₂.chains = shown ++ heard := by
        rw [hheard, hshown, hstart, List.nil_append]
      refine .bind (.get (Q := fun seen g' => seen = g' ∧ g' = g₂) ⟨rfl, rfl⟩)
        fun seen g' ⟨hseen, hg'⟩ => ?_
      subst hg' hseen
      split
      · next hempty =>
          rw [FilterGraph.isEmpty, hall, List.isEmpty_iff,
            List.append_eq_nil_iff] at hempty
          refine .pure ⟨shown, heard, [], video, ?_, hpicture, hsound,
            finish_none hpicture.stream, by simp, by simp [hempty],
            (absurd · hpictured)⟩
          rw [hall, List.append_nil]
      · next hmany =>
          refine .bind (Picture.scaled_passes _ hpicture.stream seen) ?_
          rintro l g₃ ⟨last, hlast, hfinish, hnil⟩
          refine .pure ⟨shown, heard, last, video, ?_, hpicture, hsound, hfinish,
            by simp [hnil], ?_, (absurd · hpictured)⟩
          · rw [hlast, hall]
          · rw [FilterGraph.isEmpty, hall, List.isEmpty_iff,
              List.append_eq_nil_iff] at hmany
            simp [hnil, hmany]

end Export.Graph

/-! ## What is left open -/

namespace FilterGraph

/-- Every filter of a chain works on a kind of stream. -/
def Chain.isOn (s : Stream) (c : Chain) : Bool :=
  c.filters.all fun f => decide (f.stream = s)

/-- The pads of a kind that chains end in and no chain takes. -/
def loose (g : FilterGraph) (s : Stream) : List Label :=
  ((g.chains.filter (Chain.isOn s)).flatMap Chain.outputs).filter
    fun l => decide (l ∉ g.consumed)

theorem Chain.On.isOn_iff {s t : Stream} {c : Chain} (h : c.On t) :
    c.isOn s = true ↔ t = s := by
  rw [Chain.isOn, List.all_eq_true]
  constructor
  · intro hall
    obtain ⟨f, hf⟩ := List.exists_mem_of_ne_nil _ h.nonempty
    rw [← (h.filters f hf).1]
    exact of_decide_eq_true (hall f hf)
  · rintro rfl f hf
    exact decide_eq_true (h.filters f hf).1

section Loose

variable {g : FilterGraph} {s : Stream} {l : Label}

theorem mem_loose (h : ∀ c ∈ g.chains, ∃ t, c.On t) :
    l ∈ g.loose s ↔ l ∈ g.produced ∧ l.stream = s ∧ l ∉ g.consumed := by
  simp only [loose, produced, List.mem_filter, List.mem_flatMap,
    decide_eq_true_eq]
  constructor
  · rintro ⟨⟨c, ⟨hc, hon⟩, hl⟩, hfree⟩
    obtain ⟨t, ht⟩ := h c hc
    have hstream := ht.labels l (List.mem_append_right _ hl)
    exact ⟨⟨c, hc, hl⟩, hstream.trans (ht.isOn_iff.1 hon), hfree⟩
  · rintro ⟨⟨c, hc, hl⟩, hs, hfree⟩
    obtain ⟨t, ht⟩ := h c hc
    have hstream := ht.labels l (List.mem_append_right _ hl)
    exact ⟨⟨c, ⟨hc, ht.isOn_iff.2 (hstream.symm.trans hs)⟩, hl⟩, hfree⟩

theorem nodup_loose (h : g.produced.Nodup) : (g.loose s).Nodup := by
  refine List.Nodup.filter _ (h.sublist ?_)
  exact List.filter_sublist.flatMap _

/-- A pad that no chain takes is live, whatever is surplus. -/
theorem Wired.mem_of_not_consumed {ins : List Input} {surplus live : List Label}
    (h : Wired ins surplus live g) (hl : l ∈ g.produced)
    (hfree : l ∉ g.consumed) : l ∈ live := by
  have hbalance := h.balance l (h.named l hl).not_isInput
  rw [List.count_eq_zero.2 hfree] at hbalance
  have := List.count_pos_iff.2 hl
  exact List.count_pos_iff.1 (by omega)

/-- What a chain ends in is not taken up to there, and so it is loose if it is
not taken behind it. -/
theorem Wired.not_consumed_of_last {ins : List Input} {surplus live : List Label}
    (h : Wired ins surplus live g) {before after : List Chain} {c : Chain}
    (hchains : g.chains = before ++ [c] ++ after)
    (hpads : ∀ l ∈ c.outputs, l.isInput = false) (hl : l ∈ c.outputs)
    (hafter : ∀ d ∈ after, l ∉ d.inputs) : l ∉ g.consumed := by
  have horder := h.inOrder
  have hdistinct := h.distinct
  rw [produced] at hdistinct
  rw [hchains] at horder hdistinct
  rw [consumed, hchains]
  intro hmem
  obtain ⟨d, hd, hread⟩ := List.mem_flatMap.1 hmem
  rcases List.mem_append.1 hd with hd | hd
  · refine horder.of_append.not_mem_outputs ?_ hpads hd hread hl
    rw [List.flatMap_append] at hdistinct
    exact (List.nodup_append.1 hdistinct).1
  · exact hafter d hd hread

end Loose

theorem eq_toList_of_mem {ls : List Label} {o : Option Label}
    (hdistinct : ls.Nodup) (hmem : ∀ l, l ∈ ls ↔ o = some l) :
    ls = o.toList := by
  cases o with
  | none =>
      rw [Option.toList_none, List.eq_nil_iff_forall_not_mem]
      exact fun l hl => nomatch (hmem l).1 hl
  | some l =>
      have hall : ∀ x ∈ ls, x = l := fun x hx =>
        (Option.some.inj ((hmem x).1 hx)).symm
      rw [List.eq_replicate_of_mem hall] at hdistinct ⊢
      have hpos := List.length_pos_of_mem ((hmem l).2 rfl)
      have hle := List.nodup_replicate.1 hdistinct
      obtain h1 : ls.length = 1 := by omega
      rw [h1]
      rfl

end FilterGraph

namespace Export.Graph.Laid

variable {p : Project} {kind : Format.Kind} {plan : Plan} {out : Outputs}
variable {g : FilterGraph} {shown heard last : List Chain} {video l : Label}

theorem on_shown (h : Laid p kind plan out g.chains shown heard last video) :
    ∀ c ∈ shown ++ last, c.On .video :=
  List.forall_mem_append.2 ⟨h.picture.on, h.finish.on⟩

theorem on_heard (h : Laid p kind plan out g.chains shown heard last video) :
    ∀ c ∈ heard, c.On .audio := by
  have hsound := h.sound
  unfold Sound.Heard at hsound
  split at hsound
  · rw [hsound.2]
    exact fun _ hc => nomatch hc
  · exact hsound.2.on

theorem on (h : Laid p kind plan out g.chains shown heard last video) :
    ∀ c ∈ g.chains, ∃ t, c.On t := by
  rw [h.chains, List.append_assoc]
  intro c hc
  rcases List.mem_append.1 hc with hc | hc
  · exact ⟨_, h.on_shown c (List.mem_append_left _ hc)⟩
  · rcases List.mem_append.1 hc with hc | hc
    · exact ⟨_, h.on_heard c hc⟩
    · exact ⟨_, h.on_shown c (List.mem_append_right _ hc)⟩

theorem drawn_eq (h : Laid p kind plan out g.chains shown heard last video) :
    drawn g.chains = p.drawings kind := by
  have hheard : drawn heard = [] := by
    have hsound := h.sound
    unfold Sound.Heard at hsound
    split at hsound
    · rw [hsound.2]
      rfl
    · exact hsound.2.drawn
  rw [h.chains, drawn_append, drawn_append, h.picture.drawn, hheard,
    h.finish.drawn, List.append_nil, List.append_nil]

theorem not_mem_of_stream {chains : List Chain} {s : Stream}
    (hon : ∀ c ∈ chains, c.On s) (hl : l.stream ≠ s) :
    ∀ c ∈ chains, l ∉ c.inputs :=
  fun c hc hmem => hl ((hon c hc).labels l (List.mem_append_left _ hmem))

theorem chains_ne_nil
    (h : Laid p kind plan out g.chains shown heard last video)
    (hkind : kind = .animation) : g.chains ≠ [] := by
  subst hkind
  intro hnil
  rw [h.chains] at hnil
  rcases h.unneeded.1 (List.append_eq_nil_iff.1 hnil).2 with hsound | ⟨hvideo, _⟩
  · cases hsound
  · cases hvideo

theorem audio_none (h : Laid p kind plan out g.chains shown heard last video)
    (hkind : kind = .animation) : out.audio = none := by
  have hsound := h.sound
  rw [Plan.heard, if_pos hkind] at hsound
  cases haudio : out.audio with
  | none => rfl
  | some l =>
      rw [haudio] at hsound
      exact absurd rfl hsound.1

theorem video_none_iff
    (h : Laid p kind plan out g.chains shown heard last video)
    (hkind : kind = .video) : out.video = none ↔ g.chains = [] := by
  subst hkind
  rw [h.unmade, h.chains, List.append_eq_nil_iff, List.append_eq_nil_iff]
  constructor
  · intro hlast
    rcases h.unneeded.1 hlast with hsound | ⟨_, hshown, hheard⟩
    · cases hsound
    · exact ⟨⟨hshown, hheard⟩, hlast⟩
  · exact fun hnil => hnil.2

/-- Only a video has no graph where a picture goes to the output. -/
theorem kind_video (h : Laid p kind plan out g.chains shown heard last video)
    (hkind : kind ≠ .sound) (hnil : g.chains = []) : kind = .video := by
  cases kind with
  | sound => exact absurd rfl hkind
  | animation => exact absurd hnil (h.chains_ne_nil rfl)
  | video => rfl

theorem video_some (h : Laid p kind plan out g.chains shown heard last video)
    (hkind : kind ≠ .sound) (hne : g.chains ≠ []) : ∃ l, out.video = some l := by
  rw [← Option.ne_none_iff_exists']
  cases kind with
  | sound => exact absurd rfl hkind
  | animation =>
      rw [Ne, h.unmade, h.unneeded]
      rintro (hsound | ⟨hvideo, _⟩)
      · cases hsound
      · cases hvideo
  | video => exact (h.video_none_iff rfl).not.2 hne

/-- The picture that goes to the output is what the last chain ends in. -/
theorem video_free (h : Laid p kind plan out g.chains shown heard last video)
    {ins : List Input} {surplus live : List Label}
    (hwired : Wired ins surplus live g) (hvideo : out.video = some l) :
    l.isInput = false ∧ l.stream = .video ∧ l ∉ g.consumed := by
  have hnil : last ≠ [] := fun hlast => by
    rw [h.unmade.2 hlast] at hvideo
    cases hvideo
  have hfinish := h.finish
  rw [hvideo] at hfinish
  obtain ⟨front, c, hlast, hc⟩ := hfinish.ends.resolve_left
    fun hnone => hnil hnone.2
  have hchains : g.chains = shown ++ heard ++ front ++ [c] ++ [] := by
    rw [h.chains, hlast, List.append_nil, ← List.append_assoc]
  have hpads := (hfinish.on c (by simp [hlast])).pads
  have hmem : l ∈ c.outputs := by rw [hc]; exact List.mem_singleton.2 rfl
  refine ⟨hpads l hmem, hfinish.stream, ?_⟩
  exact hwired.not_consumed_of_last hchains hpads hmem (List.forall_mem_nil _)

/-- The sound that goes to the output is that of the screen recording as it is,
or what the last chain of the sound ends in. -/
theorem audio_free (h : Laid p kind plan out g.chains shown heard last video)
    {ins : List Input} {surplus live : List Label}
    (hwired : Wired ins surplus live g) (haudio : out.audio = some l) :
    (l = .input 0 .audio ∨ l.isInput = false) ∧ l.stream = .audio ∧
      l ∉ g.consumed := by
  have hsound := h.sound
  rw [haudio] at hsound
  obtain ⟨_, hpasses⟩ := hsound
  have hne : l.stream ≠ .video := by
    rw [hpasses.stream]
    exact nofun
  have hfree := not_mem_of_stream h.on_shown hne
  rcases hpasses.ends with ⟨hl, hheard⟩ | ⟨front, c, hheard, hc⟩
  · refine ⟨.inl hl, hpasses.stream, fun hmem => ?_⟩
    rw [consumed, h.chains, hheard, List.append_nil] at hmem
    obtain ⟨d, hd, hread⟩ := List.mem_flatMap.1 hmem
    exact hfree d hd hread
  · have hchains : g.chains = shown ++ front ++ [c] ++ last := by
      rw [h.chains, hheard, ← List.append_assoc]
    have hpads := (hpasses.on c (by simp [hheard])).pads
    have hmem : l ∈ c.outputs := by rw [hc]; exact List.mem_singleton.2 rfl
    refine ⟨.inr (hpads l hmem), hpasses.stream, ?_⟩
    exact hwired.not_consumed_of_last hchains hpads hmem
      fun d hd => hfree d (List.mem_append_right _ hd)

/-- The only picture that a graph leaves open is the one that goes to the
output. -/
theorem loose_video (h : Laid p kind plan out g.chains shown heard last video)
    {ins : List Input} {surplus : List Label}
    (hwired : Wired ins surplus out.labels g) :
    g.loose .video = out.video.toList := by
  refine eq_toList_of_mem (nodup_loose hwired.distinct) fun l => ?_
  rw [mem_loose h.on]
  constructor
  · rintro ⟨hl, hstream, hfree⟩
    rcases List.mem_append.1 (hwired.mem_of_not_consumed hl hfree) with
      hmem | hmem
    · exact Option.mem_toList.1 hmem
    · have haudio := (h.audio_free hwired (Option.mem_toList.1 hmem)).2.1
      rw [hstream] at haudio
      cases haudio
  · intro hvideo
    obtain ⟨hpad, hstream, hfree⟩ := h.video_free hwired hvideo
    refine ⟨hwired.mem_produced (List.mem_append_left _ ?_) hpad, hstream, hfree⟩
    exact Option.mem_toList.2 hvideo

/-- The only sound that a graph leaves open is the one that goes to the output,
if a chain has touched it. -/
theorem loose_audio (h : Laid p kind plan out g.chains shown heard last video)
    {ins : List Input} {surplus : List Label}
    (hwired : Wired ins surplus out.labels g) :
    g.loose .audio = (out.audio.filter fun l => !l.isInput).toList := by
  refine eq_toList_of_mem (nodup_loose hwired.distinct) fun l => ?_
  rw [mem_loose h.on, Option.filter_eq_some_iff, Bool.not_eq_true']
  constructor
  · rintro ⟨hl, hstream, hfree⟩
    refine ⟨?_, (hwired.named l hl).not_isInput⟩
    rcases List.mem_append.1 (hwired.mem_of_not_consumed hl hfree) with
      hmem | hmem
    · have hvideo := (h.video_free hwired (Option.mem_toList.1 hmem)).2.1
      rw [hstream] at hvideo
      cases hvideo
    · exact Option.mem_toList.1 hmem
  · rintro ⟨haudio, hpad⟩
    obtain ⟨_, hstream, hfree⟩ := h.audio_free hwired haudio
    refine ⟨hwired.mem_produced (List.mem_append_right _ ?_) hpad, hstream, hfree⟩
    exact Option.mem_toList.2 haudio

end Export.Graph.Laid

end Cutlist
