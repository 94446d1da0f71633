import Cutlist.Proofs.Passing

/-!
# What each stage passes on

Every stage of the picture and of the sound passes its label on, and only an
annotation draws anything. Three stages join labels to one: the camera is laid
over the picture, the palette of an animated image is made of a copy of it, and
the microphone is mixed with the sound of the screen. What they join comes from
chains of one kind, so that it does not matter which of the labels is counted as
the one that went in.

A stage fails only over a value that it uses. So an offset without a file, a
colour that is never drawn and a caption without words may be anything.
-/

namespace Cutlist

open FilterGraph Render Export

namespace Render

section Stages

variable {excuse : Prop} {s : Stream} {source : Label} {stem : String}

/-! ## Pieces -/

theorem Tempo.filtersOf_routine (factors : List Binary64) :
    ∀ f ∈ Tempo.filtersOf factors, f.Routine .audio := by
  fun_induction Tempo.filtersOf factors with
  | case1 => rintro _ ⟨⟩
  | case2 last => exact List.forall_mem_singleton.2 ⟨rfl, trivial, rfl⟩
  | case3 factor rest _ ih =>
      exact List.forall_mem_cons.2 ⟨⟨rfl, trivial, rfl⟩, ih⟩

theorem Sound.pieceFilters_routine (q : Piece) :
    ∀ f ∈ Sound.pieceFilters q, f.Routine .audio := by
  refine List.forall_mem_append.2 ⟨?_, Tempo.filtersOf_routine _⟩
  exact List.forall_mem_cons.2 ⟨⟨rfl, trivial, rfl⟩,
    List.forall_mem_singleton.2 ⟨rfl, trivial, rfl⟩⟩

theorem Picture.pieceFilters_routine (size : Resolution) (q : Piece) :
    ∀ f ∈ Picture.pieceFilters size q, f.Routine .video := by
  have htwo {a b : Filter} (ha : a.Routine .video) (hb : b.Routine .video) :
      ∀ f ∈ [a, b], f.Routine .video :=
    List.forall_mem_cons.2 ⟨ha, List.forall_mem_singleton.2 hb⟩
  refine List.forall_mem_append.2
    ⟨htwo ⟨rfl, trivial, rfl⟩ ⟨rfl, trivial, rfl⟩, ?_⟩
  cases q.zoom with
  | none => exact fun _ h => nomatch h
  | some zoom => exact htwo ⟨rfl, trivial, rfl⟩ ⟨rfl, trivial, rfl⟩

/-- A label is cut into parts, and the parts are put together again. -/
theorem cut_passes {filters : Piece → List Filter} (hstem : isStem stem = true)
    (hs : (Label.pad stem).stream = s) (hfilters : ∀ q, filters q ≠ [] ∧
      ∀ f ∈ filters q, f.Routine s) {pieces : List Piece} (hne : pieces ≠ [])
    {out : String} (hout : isStem out = true)
    (hos : (Label.pad out).stream = s) {f : List Label → Build Label}
    (hone : ∀ part, f [part] = pure part)
    (hmore : ∀ a b more, f (a :: b :: more) = join (a :: b :: more)
      [.concat s (a :: b :: more).length] out) (hsource : source.stream = s) :
    Adds excuse ((pieces.mapM fun q => chain source (filters q) stem) >>= f)
      (Passes s [] source) := by
  have heach : Adds excuse
      (pieces.mapM fun q => chain source (filters q) stem) fun _ new =>
        ∀ c ∈ new, c.On s ∧ ∀ f ∈ c.filters, f.Routine s := by
    refine .mapM_forall (fun q => ?_) pieces
    refine (join_on hstem hs (hfilters q).1 (fun f hf =>
      ⟨((hfilters q).2 f hf).stream, ((hfilters q).2 f hf).authored⟩)
      (List.forall_mem_singleton.2 hsource)).imp fun l new ⟨_, hnew, hon⟩ => ?_
    subst hnew
    exact List.forall_mem_singleton.2 ⟨hon, (hfilters q).2⟩
  refine .bind ((parts_run hstem pieces).and heach)
    fun parts new ⟨⟨hruns, hparts⟩, hon⟩ => ?_
  have hdrawn := drawn_of_routine fun c hc => (hon c hc).2
  have hstreams : ∀ l ∈ parts, l.stream = s := by
    intro l hl
    rw [hparts] at hl
    obtain ⟨c, hc, hmem⟩ := List.mem_flatMap.1 hl
    exact (hon c hc).1.labels l (List.mem_append_right _ hmem)
  have hlength : parts.length = pieces.length := by
    rw [hparts, length_outputs (fun _ _ ⟨l, hl⟩ => ⟨l, by rw [hl]⟩) hruns]
  rcases parts with _ | ⟨part, _ | ⟨next, more⟩⟩
  · exact absurd (List.length_eq_zero_iff.1 hlength.symm) hne
  · rw [hone]
    obtain ⟨q, rfl⟩ := List.length_eq_one_iff.1 hlength.symm
    obtain ⟨c, _, ⟨l, rfl⟩, hnil, rfl⟩ := List.forall₂_cons_left_iff.1 hruns
    obtain rfl := List.forall₂_nil_left_iff.1 hnil
    obtain rfl := List.singleton_inj.1 hparts
    refine .pure ?_
    rw [List.append_nil]
    exact ⟨fun c hc => (hon c hc).1, hstreams part (List.mem_cons_self ..),
      hdrawn, .inr ⟨[], _, rfl, rfl⟩⟩
  · rw [hmore]
    refine (join_one (.concat s _) ⟨rfl, trivial, rfl⟩ hout hos hstreams
      source).imp fun l joined ⟨hjoined, hnil⟩ => ?_
    have hall := hjoined.behind hnil (fun c hc => (hon c hc).1) source
    rw [hdrawn] at hall
    exact hall

theorem Picture.timeline_passes (size : Resolution) {pieces : List Piece}
    (hne : pieces ≠ []) (hsource : source.stream = .video) :
    Adds excuse (Picture.timeline source pieces size)
      (Passes .video [] source) := by
  exact cut_passes (by decide) (by decide)
    (fun q => ⟨by simp [Picture.pieceFilters],
      Picture.pieceFilters_routine size q⟩) hne
    (show isStem "vconcat" = true by decide) (by decide) (fun _ => rfl)
    (fun _ _ _ => rfl) hsource

theorem Sound.timeline_passes (hstem : isStem stem = true)
    (hs : (Label.pad stem).stream = .audio)
    (hout : isStem (stem ++ "out") = true)
    (hos : (Label.pad (stem ++ "out")).stream = .audio) {pieces : List Piece}
    (duration : Option Binary64) (hne : pieces ≠ [])
    (hsource : source.stream = .audio) :
    Adds excuse (Sound.timeline source pieces stem duration)
      (Passes .audio [] source) := by
  rw [Sound.timeline]
  split
  · exact .pure (.refl hsource)
  · exact cut_passes hstem hs
      (fun q => ⟨by simp [Sound.pieceFilters], Sound.pieceFilters_routine q⟩)
      hne hout hos (fun _ => rfl) (fun _ _ _ => rfl) hsource

/-! ## The picture -/

theorem Offset.sync_routine (o : Offset) : ∀ f ∈ o.sync, f.Routine .video := by
  unfold Offset.sync
  split
  · exact List.forall_mem_singleton.2 ⟨rfl, trivial, rfl⟩
  · split
    · exact List.forall_mem_cons.2 ⟨⟨rfl, trivial, rfl⟩,
        List.forall_mem_singleton.2 ⟨rfl, trivial, rfl⟩⟩
    · exact fun _ h => nomatch h

theorem Picture.withCamera_passes {base camera : Label} (o : CameraOverlay)
    {v : Json} (hoffset : ¬ Offset.Readable v → excuse)
    (hbase : base.stream = .video) (hcamera : camera.stream = .video) :
    Adds excuse (Picture.withCamera base camera o (Offset.given v))
      (Passes .video [] base) := by
  refine .ask (Picture.sync_reads hoffset) fun sync ⟨offset, _, hsync⟩ => ?_
  subst hsync
  have henlarged : ∀ f ∈ offset.sync ++
      [.enlarge (o.scale.greater Picture.minCameraScale)], f.Routine .video :=
    List.forall_mem_append.2 ⟨offset.sync_routine,
      List.forall_mem_singleton.2 ⟨rfl, trivial, rfl⟩⟩
  refine .bind (chain_routine (by decide) (by decide) (by simp) henlarged hcamera)
    fun synced new ⟨hsynced, _⟩ => ?_
  refine (join_one (s := .video) (.overlay (Picture.placement o))
    ⟨rfl, trivial, rfl⟩ (by decide) (by decide) ?_ base).imp
    fun l more ⟨hmore, hnil⟩ => ?_
  · exact List.forall_mem_cons.2 ⟨hbase,
      List.forall_mem_singleton.2 hsynced.stream⟩
  · have hall := hmore.behind hnil hsynced.on base
    rw [hsynced.drawn] at hall
    exact hall

theorem Picture.annotate_passes {duration : Binary64} {a : Annotation}
    (hcolor : isBrief (window a duration) = false →
      a.color.text? = none → excuse)
    (hcaption : isBrief (window a duration) = false →
      a.text.truthy = true → a.text.text? = none → excuse)
    {current : Label} (hcurrent : current.stream = .video) :
    Adds excuse (Picture.annotate duration current a)
      (Passes .video (Picture.drawings duration a) current) := by
  rw [Picture.annotate, Picture.drawings]
  split
  · exact .pure (.refl hcurrent)
  · next hshown =>
      rw [Bool.not_eq_true] at hshown
      refine .ask (Picture.color_asks (hcolor hshown)) fun color hink => ?_
      subst hink
      refine Passes.bind (d := [Picture.box a (Picture.ink a)
        (Picture.window a duration)]) (e := Picture.captions duration a) ?_
        fun box hbox => ?_
      · exact chain_draws (s := .video) (Picture.box a (Picture.ink a)
          (Picture.window a duration)) ⟨rfl, trivial⟩ rfl (by decide) (by decide)
          hcurrent
      refine .ask (Picture.caption_asks (hcaption hshown)) fun caption hwords =>
        ?_
      subst hwords
      rw [Picture.captions]
      split
      · exact .pure (.refl hbox)
      · exact chain_draws (s := .video) (.drawText _ _ _ _) ⟨rfl, trivial⟩ rfl
          (by decide) (by decide) hbox

theorem Picture.scaled_passes {source : Label} (height : Int)
    (hsource : source.stream = .video) :
    Adds excuse (Picture.scaled source height) fun l new =>
      Passes .video [] source l new ∧ new ≠ [] :=
  chain_one _ ⟨rfl, trivial, rfl⟩ (by decide) (by decide) hsource

theorem Picture.animated_passes {source : Label} (rate height : Int)
    (hsource : source.stream = .video) :
    Adds excuse (Picture.animated source rate height) fun l new =>
      Passes .video [] source l new ∧ new ≠ [] := by
  refine .bind (fresh_on (s := .video) (by decide) (by decide))
    fun first new ⟨hnew, hfirst, hfirstPad⟩ => ?_
  subst hnew
  refine .bind (fresh_on (s := .video) (by decide) (by decide))
    fun second new ⟨hnew, hsecond, hsecondPad⟩ => ?_
  subst hnew
  have hsplit : Chain.On .video ⟨[source],
      [.frameRate rate, .fitImage height, .splitVideo], [first, second]⟩ :=
    { nonempty := List.cons_ne_nil _ _
      filters := by simp [Filter.stream, Filter.Authored]
      labels := by simp [hsource, hfirst, hsecond]
      pads := by simp [hfirstPad, hsecondPad] }
  refine .bind (.addChain (P := fun _ new => new = [⟨[source],
    [.frameRate rate, .fitImage height, .splitVideo], [first, second]⟩]) rfl)
    fun _ new hnew => ?_
  subst hnew
  refine .bind (chain_one (s := .video) .makePalette ⟨rfl, trivial, rfl⟩
    (by decide) (by decide) hfirst) fun palette made ⟨hmade, _⟩ => ?_
  refine (join_one (s := .video) .usePalette ⟨rfl, trivial, rfl⟩ (by decide)
    (by decide)
    (List.forall_mem_cons.2 ⟨hsecond, List.forall_mem_singleton.2 hmade.stream⟩)
    source).imp fun l more ⟨hmore, hnil⟩ => ⟨?_, by simp⟩
  have hlast := hmore.behind hnil hmade.on source
  have hall := hlast.behind (by simp [hnil]) (List.forall_mem_singleton.2 hsplit)
    source
  rw [hmade.drawn] at hall
  exact hall

/-! ## The sound -/

theorem Sound.gain_passes (volume : Binary64) (hstem : isStem stem = true)
    (hs : (Label.pad stem).stream = .audio) (hsource : source.stream = .audio) :
    Adds excuse (Sound.gain source volume stem) (Passes .audio [] source) := by
  rw [Sound.gain]
  split
  · exact .pure (.refl hsource)
  · exact (chain_one (.volume _) ⟨rfl, trivial, rfl⟩ hstem hs hsource).imp
      fun _ _ h => h.1

theorem Sound.follow_passes {pieces : Option (List Piece)} (project : Project)
    (hstem : isStem stem = true) (hs : (Label.pad stem).stream = .audio)
    (hout : isStem (stem ++ "out") = true)
    (hos : (Label.pad (stem ++ "out")).stream = .audio)
    (hne : ∀ ps, pieces = some ps → ps ≠ [])
    (hsource : source.stream = .audio) :
    Adds excuse (Sound.follow source pieces project stem)
      (Passes .audio [] source) := by
  cases pieces with
  | some ps =>
      exact Sound.timeline_passes hstem hs hout hos _ (hne ps rfl) hsource
  | none => exact .pure (.refl hsource)

theorem Sound.screen_passes {pieces : Option (List Piece)} (project : Project)
    (hne : ∀ ps, pieces = some ps → ps ≠ []) :
    Adds excuse (Sound.screen pieces project)
      (Passes .audio [] (.input 0 .audio)) :=
  Passes.bind (Sound.follow_passes project (by decide) (by decide) (by decide)
    (by decide) hne rfl)
    fun _ => Sound.gain_passes _ (by decide) (by decide)

theorem Sound.Shifts.routine {project : Project} {filters : List Filter}
    (h : Sound.Shifts project filters) :
    filters ≠ [] ∧ ∀ f ∈ filters, f.Routine .audio := by
  obtain ⟨o, _, _, ⟨_, rfl⟩ | ⟨_, x, _, rfl⟩⟩ := h
  · exact ⟨List.cons_ne_nil _ _,
      List.forall_mem_singleton.2 ⟨rfl, ⟨o, rfl⟩, rfl⟩⟩
  · exact ⟨List.cons_ne_nil _ _, List.forall_mem_cons.2 ⟨⟨rfl, trivial, rfl⟩,
      List.forall_mem_singleton.2 ⟨rfl, trivial, rfl⟩⟩⟩

theorem Sound.offset_passes {project : Project} (hstem : isStem stem = true)
    (hs : (Label.pad stem).stream = .audio)
    (hoffset : ¬ Offset.Readable project.microphoneOffset → excuse)
    (hsource : source.stream = .audio) :
    Adds excuse (Sound.offset source (Offset.given project.microphoneOffset)
      stem) (Passes .audio [] source) := by
  intro g
  refine Sound.offset_meets hoffset
    (fun _ => ⟨[], (List.append_nil _).symm, .refl hsource⟩)
    fun filters hshifts => ?_
  exact ((chain_routine hstem hs hshifts.routine.1 hshifts.routine.2
    hsource).imp fun _ _ h => h.1) g

/-- The sound of the microphone is always cleaned, and so it ends in a pad. -/
theorem Sound.microphone_passes (k : Nat) {pieces : Option (List Piece)}
    {project : Project} (hne : ∀ ps, pieces = some ps → ps ≠ [])
    (hoffset : ¬ Offset.Readable project.microphoneOffset → excuse) :
    Adds excuse (Sound.microphone k pieces project) fun l new =>
      Passes .audio [] (.input k .audio) l new ∧ new ≠ [] := by
  refine .bind (Sound.offset_passes (by decide) (by decide) hoffset rfl)
    fun voice shift hshift => ?_
  refine .bind (Sound.follow_passes project (by decide) (by decide) (by decide)
    (by decide) hne hshift.stream) fun cut pieces hcut => ?_
  refine .bind (chain_one (s := .audio) (.highpass 80) ⟨rfl, trivial, rfl⟩
    (by decide) (by decide) hcut.stream) fun clean cleaned ⟨hclean, hnil⟩ => ?_
  refine (Sound.gain_passes _ (by decide) (by decide) hclean.stream).imp
    fun l more hmore => ⟨?_, by simp [hnil]⟩
  exact hshift.trans (hcut.trans (hclean.trans hmore))

theorem Sound.mixed_passes {screen microphone : Label}
    (hscreen : screen.stream = .audio)
    (hmicrophone : microphone.stream = .audio) :
    Adds excuse (Sound.mixed screen microphone) fun l new =>
      Passes .audio [] screen l new ∧ new ≠ [] := by
  refine .bind (fresh_on (s := .audio) (by decide) (by decide))
    fun trigger new ⟨hnew, htrigger, htriggerPad⟩ => ?_
  subst hnew
  refine .bind (fresh_on (s := .audio) (by decide) (by decide))
    fun voice new ⟨hnew, hvoice, hvoicePad⟩ => ?_
  subst hnew
  have hsplit : Chain.On .audio
      ⟨[microphone], [.splitAudio 2], [trigger, voice]⟩ :=
    { nonempty := List.cons_ne_nil _ _
      filters := by simp [Filter.stream, Filter.Authored]
      labels := by simp [hmicrophone, htrigger, hvoice]
      pads := by simp [htriggerPad, hvoicePad] }
  refine .bind (.addChain (P := fun _ new =>
    new = [⟨[microphone], [.splitAudio 2], [trigger, voice]⟩]) rfl)
    fun _ new hnew => ?_
  subst hnew
  refine .bind (join_one (s := .audio) .duck ⟨rfl, trivial, rfl⟩ (by decide)
    (by decide)
    (List.forall_mem_cons.2 ⟨hscreen, List.forall_mem_singleton.2 htrigger⟩)
    screen) fun ducked duck ⟨hduck, _⟩ => ?_
  refine (join_one (s := .audio) .mix ⟨rfl, trivial, rfl⟩ (by decide)
    (by decide)
    (List.forall_mem_cons.2 ⟨hduck.stream, List.forall_mem_singleton.2 hvoice⟩)
    screen).imp fun l more ⟨hmore, hnil⟩ => ⟨?_, by simp⟩
  have hlast := hmore.behind hnil hduck.on screen
  have hall := hlast.behind (by simp [hnil]) (List.forall_mem_singleton.2 hsplit)
    screen
  rw [hduck.drawn] at hall
  exact hall

/-- There is sound where there is a source of it. It is that of the screen
recording as it is, or what a chain ends in. -/
def Sound.Heard (sources : AudioSources) (audio : Option Label)
    (new : List Chain) : Prop :=
  match audio with
  | none => sources = .none ∧ new = []
  | some l => sources ≠ .none ∧ Passes .audio [] (.input 0 .audio) l new

theorem Sound.output_heard {sources : AudioSources}
    {pieces : Option (List Piece)} {project : Project} (k : Nat)
    (hne : ∀ ps, pieces = some ps → ps ≠ [])
    (hoffset : sources.hasMicrophone = true →
      ¬ Offset.Readable project.microphoneOffset → excuse) :
    Adds excuse (Sound.output sources pieces project k)
      (Sound.Heard sources) := by
  rw [Sound.output_eq]
  cases sources with
  | none => exact .pure ⟨rfl, rfl⟩
  | screenOnly =>
      refine .map ((Sound.screen_passes project hne).imp fun l new h => ?_)
      exact ⟨nofun, h⟩
  | microphoneOnly =>
      refine .map ((Sound.microphone_passes k hne (hoffset rfl)).imp
        fun l new ⟨h, hnil⟩ => ?_)
      exact ⟨nofun, h.of_ne_nil hnil _⟩
  | both =>
      refine .bind (Sound.screen_passes project hne)
        fun screen shown hscreen => ?_
      refine .bind (Sound.microphone_passes k hne (hoffset rfl))
        fun microphone heard ⟨hmicrophone, _⟩ => .map ?_
      refine (Sound.mixed_passes hscreen.stream hmicrophone.stream).imp
        fun l mix ⟨hmix, hnil⟩ => ⟨nofun, ?_⟩
      have hlast := hmix.behind hnil hmicrophone.on (.input 0 .audio)
      have hall := hlast.behind (by simp [hnil]) hscreen.on (.input 0 .audio)
      rw [hscreen.drawn, hmicrophone.drawn] at hall
      exact hall

end Stages

end Render

end Cutlist
