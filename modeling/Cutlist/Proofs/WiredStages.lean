import Cutlist.Export.Graph
import Cutlist.Proofs.Wiring

/-!
# Every stage of an export is wired

Each stage of the picture and of the sound takes the label it is given and
leaves another in its place, whether or not it has anything to do. What can go
wrong on the way is a value of the project that no filter can be written for:
an offset that is not a number or too large, a colour or a caption that is not
a text. A project with none of these is `Usable`.

One stage is not linear. A timeline of several pieces takes its label once for
each of them, which is as it should be for a stream of an input. The sound of
the microphone comes to it as a pad when it was brought into step before.
-/

namespace Cutlist

open FilterGraph Render

/-- An offset that a filter can be written for. -/
def Render.Offset.Readable (v : Json) : Prop :=
  ∃ o, Offset.ofJson? (Offset.given v) = some o ∧ o.size?.isSome = true

theorem Render.Offset.not_readable_of_kind {v : Json}
    (h : Offset.ofJson? (Offset.given v) = none) : ¬ Offset.Readable v := by
  rintro ⟨o, ho, _⟩
  rw [h] at ho
  cases ho

theorem Render.Offset.not_readable_of_size {v : Json} {o : Offset}
    (h : Offset.ofJson? (Offset.given v) = some o) (hsize : o.size? = none) :
    ¬ Offset.Readable v := by
  rintro ⟨o', ho', hsome⟩
  obtain rfl : o = o' := Option.some.inj (h.symm.trans ho')
  rw [hsize] at hsome
  cases hsome

/-- A project with nothing in it that no filter can be written for. -/
structure Project.Usable (p : Project) : Prop where
  cameraOffset : Offset.Readable p.cameraOffset
  microphoneOffset : Offset.Readable p.microphoneOffset
  colors : ∀ a ∈ p.edits.annotations, a.color.text?.isSome = true
  captions : ∀ a ∈ p.edits.annotations,
    a.text.truthy = true → a.text.text?.isSome = true

namespace Project

variable {p : Project} {a : Annotation}

theorem not_usable_of_color (ha : a ∈ p.edits.annotations)
    (h : a.color.text? = none) : ¬ p.Usable := by
  intro husable
  have hcolor := husable.colors a ha
  rw [h] at hcolor
  cases hcolor

theorem not_usable_of_caption (ha : a ∈ p.edits.annotations)
    (htext : a.text.truthy = true) (h : a.text.text? = none) : ¬ p.Usable := by
  intro husable
  have hcaption := husable.captions a ha htext
  rw [h] at hcaption
  cases hcaption

end Project

namespace FilterGraph

/-! ## Filters that join nothing -/

theorem Plain.nil : Plain [] := fun _ _ h => nomatch h

theorem Plain.append {fs gs : List Filter} (hf : Plain fs) (hg : Plain gs) :
    Plain (fs ++ gs) := by
  intro stream n h
  rcases List.mem_append.1 h with h | h
  · exact hf stream n h
  · exact hg stream n h

end FilterGraph

theorem Render.Tempo.plain_filtersOf (factors : List Binary64) :
    Plain (filtersOf factors) := by
  fun_induction filtersOf factors with
  | case1 => exact .nil
  | case2 last => simp [Plain]
  | case3 factor rest _ ih =>
      intro stream n h
      rcases List.mem_cons.1 h with h | h
      · cases h
      · exact ih stream n h

theorem Render.Sound.plain_pieceFilters (q : Piece) :
    Plain (Sound.pieceFilters q) :=
  .append (by simp [Plain]) (Tempo.plain_filtersOf _)

theorem Render.Picture.plain_pieceFilters (size : Resolution) (q : Piece) :
    Plain (Picture.pieceFilters size q) := by
  refine .append (by simp [Plain]) ?_
  cases q.zoom with
  | none => exact .nil
  | some zoom => simp [Plain, Picture.zoomFilters]

namespace Render

section Stages

variable {excuse : Prop} {ins : List Input} {surplus rest : List Label}
variable {g : FilterGraph} {α : Type}

/-! ## Values of the project -/

theorem Offset.ofJson_asks {v : Json} (h : ¬ Offset.Readable v → excuse)
    (g : FilterGraph) :
    Meets excuse (Offset.ofJson (Offset.given v)) g fun o g' =>
      g' = g ∧ Offset.ofJson? (Offset.given v) = some o := by
  rw [Offset.ofJson]
  split
  · next o ho => exact .pure ⟨rfl, ho⟩
  · next hnone => exact .throw (h (Offset.not_readable_of_kind hnone))

theorem Offset.seconds_asks {v : Json} {o : Offset}
    (ho : Offset.ofJson? (Offset.given v) = some o)
    (h : ¬ Offset.Readable v → excuse) (g : FilterGraph) :
    Meets excuse o.seconds g fun t g' =>
      g' = g ∧ ∃ x, o.size? = some x ∧ t = x / 1000 := by
  rw [Offset.seconds]
  split
  · next x hx => exact .pure ⟨rfl, x, hx, rfl⟩
  · next hnone => exact .throw (h (Offset.not_readable_of_size ho hnone))

/-- The colour that an annotation is drawn in, if it has one. -/
def Picture.ink (a : Annotation) : String :=
  Text.squeeze (a.color.text?.getD "")

/-- The words of a caption, if there is one. -/
def Picture.words (a : Annotation) : String :=
  if a.text.truthy then Text.trim (a.text.text?.getD "") else ""

theorem Picture.color_asks {a : Annotation} (h : a.color.text? = none → excuse)
    (g : FilterGraph) :
    Meets excuse (Picture.color a) g fun color g' =>
      g' = g ∧ color = Picture.ink a := by
  rw [Picture.color]
  split
  · next s hs => exact .pure ⟨rfl, by rw [Picture.ink, hs]; rfl⟩
  · next hnone => exact .throw (h hnone)

theorem Picture.caption_asks {a : Annotation}
    (h : a.text.truthy = true → a.text.text? = none → excuse)
    (g : FilterGraph) :
    Meets excuse (Picture.caption a) g fun caption g' =>
      g' = g ∧ caption = Picture.words a := by
  rw [Picture.caption, Picture.words]
  split
  · next htext =>
      split
      · next s hs => exact .pure ⟨rfl, by rw [hs]; rfl⟩
      · next hnone => exact .throw (h htext hnone)
  · exact .pure ⟨rfl, rfl⟩

/-! ## Pieces -/

theorem join_parts_linear {stream : Stream} {parts : List Label}
    {stem : String} (hstem : isStem stem = true) (hlength : 2 ≤ parts.length) :
    Linear excuse ins parts
      (join parts [.concat stream parts.length] stem) := by
  refine join_linear hstem fun l s n hmem => ?_
  rw [List.mem_singleton] at hmem
  cases hmem
  exact ⟨rfl, rfl, hlength⟩

/-- A label is cut into parts, and the parts are put together again. -/
theorem cut_wired {source : Label} {filters : α → List Filter} {stem : String}
    (hstem : isStem stem = true) (hplain : ∀ x, Plain (filters x)) {xs : List α}
    (hne : xs ≠ []) {stream : Stream} {out : String} (hout : isStem out = true)
    {f : List Label → Build Label}
    (hone : ∀ part, f [part] = pure part)
    (hmore : ∀ a b more, f (a :: b :: more) = join (a :: b :: more)
      [.concat stream (a :: b :: more).length] out)
    (h : Wired ins surplus (source :: rest) g) :
    Meets excuse ((xs.mapM fun x => chain source (filters x) stem) >>= f) g
      fun l g' =>
        Wired ins (Wired.again source (xs.length - 1) ++ surplus)
          (l :: rest) g' := by
  have hpos := List.length_pos_iff.2 hne
  have hrepeated := h.repeated (xs.length - 1)
  rw [Nat.sub_add_cancel hpos] at hrepeated
  refine .bind (parts_wired hstem hplain hrepeated)
    fun parts g' ⟨hlength, hparts⟩ => ?_
  rcases parts with _ | ⟨part, _ | ⟨next, more⟩⟩
  · exact absurd hlength.symm (Nat.ne_of_gt hpos)
  · rw [hone]
    exact .pure hparts
  · rw [hmore]
    exact join_parts_linear hout (Nat.le_add_left ..) g' _ rest hparts

theorem Picture.timeline_wired {source : Label} {pieces : List Piece}
    (size : Resolution) (hne : pieces ≠ [])
    (h : Wired ins surplus (source :: rest) g) :
    Meets excuse (Picture.timeline source pieces size) g fun l g' =>
      Wired ins (Wired.again source (pieces.length - 1) ++ surplus)
        (l :: rest) g' := by
  exact cut_wired (by decide) (Picture.plain_pieceFilters size) hne
    (show isStem "vconcat" = true by decide) (fun _ => rfl) (fun _ _ _ => rfl) h

/-! ## The picture -/

theorem Picture.sync_asks {v : Json} (h : ¬ Offset.Readable v → excuse)
    (g : FilterGraph) :
    Meets excuse (Offset.ofJson (Offset.given v) >>= Picture.syncFilters) g
      fun fs g' => g' = g ∧ Plain fs := by
  refine .bind (Offset.ofJson_asks h g) fun o g' ⟨hg, ho⟩ => ?_
  subst hg
  rw [Picture.syncFilters]
  split
  · refine .bind (Offset.seconds_asks ho h g') fun seconds g'' ⟨hg, _⟩ => ?_
    exact .pure ⟨hg, by simp [Plain]⟩
  · split
    · refine .bind (Offset.seconds_asks ho h g') fun seconds g'' ⟨hg, _⟩ => ?_
      exact .pure ⟨hg, by simp [Plain]⟩
    · exact .pure ⟨rfl, .nil⟩

theorem Picture.withCamera_linear {base : Label} {k : Nat}
    (hk : k < ins.length) (o : CameraOverlay) {v : Json}
    (hoffset : ¬ Offset.Readable v → excuse) :
    Linear excuse ins [base]
      (Picture.withCamera base (.input k .video) o (Offset.given v)) := by
  refine .ask (Picture.sync_asks hoffset) fun sync hsync => ?_
  intro g surplus rest h
  refine .bind (chain_linear (by decide) (hsync.append (by simp [Plain]))
    g surplus _ (h.read hk .video)) fun camera g' hcamera => ?_
  exact join_linear (by decide) (fun l => .of_plain (by simp [Plain]))
    g' surplus rest (hcamera.perm (.swap ..))

theorem Picture.annotate_linear {duration : Binary64} {a : Annotation}
    (hcolor : a.color.text? = none → excuse)
    (hcaption : a.text.truthy = true → a.text.text? = none → excuse)
    (l : Label) :
    Linear excuse ins [l] (Picture.annotate duration l a) := by
  rw [Picture.annotate]
  split
  · exact .pass l
  · refine .ask (Picture.color_asks hcolor) fun color _ => ?_
    refine .bind (chain_linear (by decide) (by simp [Plain, Picture.box]))
      fun drawn => ?_
    refine .ask (Picture.caption_asks hcaption) fun caption _ => ?_
    split
    · exact .pass drawn
    · exact chain_linear (by decide) (by simp [Plain])

theorem Picture.scaled_linear (l : Label) (height : Int) :
    Linear excuse ins [l] (Picture.scaled l height) :=
  chain_linear (by decide) (by simp [Plain])

theorem Picture.animated_linear (l : Label) (rate height : Int) :
    Linear excuse ins [l] (Picture.animated l rate height) := by
  intro g surplus rest h
  refine .bind (fresh_reserved h (by decide)) fun first g' ⟨hg', hfirst, _⟩ => ?_
  refine .bind (fresh_reserved hg' (by decide))
    fun second g'' ⟨hg'', hsecond, hapart⟩ => ?_
  obtain ⟨hfirst, hne⟩ := hapart first hfirst
  have hdistinct : [first, second].Nodup := by simpa using hne
  refine .bind (addChain_wired hg'' hdistinct (by simp [hfirst, hsecond])
    (.of_plain (by simp [Plain]))) fun _ g₃ h₃ => ?_
  refine .bind (chain_linear (by decide) (by simp [Plain]) g₃ surplus _ h₃)
    fun palette g₄ h₄ => ?_
  exact join_linear (by decide) (fun l => .of_plain (by simp [Plain]))
    g₄ surplus rest (h₄.perm (.swap ..))

/-! ## The sound -/

theorem Sound.gain_linear (l : Label) (volume : Binary64) {stem : String}
    (hstem : isStem stem = true) :
    Linear excuse ins [l] (Sound.gain l volume stem) := by
  rw [Sound.gain]
  split
  · exact .pass l
  · exact chain_linear hstem (by simp [Plain])

theorem Sound.length_of_isUntouched {pieces : List Piece}
    {duration : Option Binary64}
    (h : Sound.isUntouched pieces duration = true) : pieces.length = 1 := by
  unfold Sound.isUntouched at h
  split at h
  · rfl
  · cases h

theorem Sound.timeline_wired {source : Label} {pieces : List Piece}
    {stem : String} (hstem : isStem stem = true)
    (hout : isStem (stem ++ "out") = true) (duration : Option Binary64)
    (hne : pieces ≠ []) (h : Wired ins surplus (source :: rest) g) :
    Meets excuse (Sound.timeline source pieces stem duration) g fun l g' =>
      Wired ins (Wired.again source (pieces.length - 1) ++ surplus)
        (l :: rest) g' := by
  rw [Sound.timeline]
  split
  · next huntouched =>
      rw [Sound.length_of_isUntouched huntouched, Wired.again_zero]
      exact .pure h
  · exact cut_wired hstem Sound.plain_pieceFilters hne hout (fun _ => rfl)
      (fun _ _ _ => rfl) h

/-- How many times more than once a timeline takes its label. -/
def Sound.repeats (pieces : Option (List Piece)) : Nat :=
  (pieces.map fun ps => ps.length - 1).getD 0

theorem Sound.follow_wired {source : Label} {pieces : Option (List Piece)}
    {stem : String} (hstem : isStem stem = true)
    (hout : isStem (stem ++ "out") = true) (project : Project)
    (hne : ∀ ps, pieces = some ps → ps ≠ [])
    (h : Wired ins surplus (source :: rest) g) :
    Meets excuse (Sound.follow source pieces project stem) g fun l g' =>
      Wired ins (Wired.again source (Sound.repeats pieces) ++ surplus)
        (l :: rest) g' := by
  cases pieces with
  | some ps => exact Sound.timeline_wired hstem hout _ (hne ps rfl) h
  | none =>
      refine .pure ?_
      rw [Sound.repeats, Option.map_none, Option.getD_none, Wired.again_zero]
      exact h

theorem Sound.screen_wired {pieces : Option (List Piece)} (project : Project)
    (hne : ∀ ps, pieces = some ps → ps ≠ []) (hscreen : 0 < ins.length)
    (h : Wired ins surplus rest g) :
    Meets excuse (Sound.screen pieces project) g fun l g' =>
      Wired ins surplus (l :: rest) g' := by
  refine .bind (Sound.follow_wired (by decide) (by decide) project hne
    (h.read hscreen .audio)) fun l g' hl => ?_
  rw [Wired.again_input rfl] at hl
  exact Sound.gain_linear l _ (by decide) g' surplus rest hl

/-- The sound of the microphone is shifted against that of the screen. -/
def Sound.Shifted (project : Project) : Prop :=
  ∃ o, Offset.ofJson? (Offset.given project.microphoneOffset) = some o ∧
    o.isZero = false

/-- The filters that bring the sound of the microphone into step: a delay for a
positive offset, a cut at the beginning for a negative one. -/
def Sound.Shifts (project : Project) (filters : List Filter) : Prop :=
  ∃ o, Offset.ofJson? (Offset.given project.microphoneOffset) = some o ∧
    o.isZero = false ∧
    ((o.isPositive = true ∧ filters = [.delay o.toText]) ∨
      (o.isPositive = false ∧ ∃ x, o.size? = some x ∧
        filters = [.trim .audio (x / 1000) none, .restart .audio]))

theorem Sound.Shifts.shifted {project : Project} {filters : List Filter}
    (h : Sound.Shifts project filters) : Sound.Shifted project := by
  obtain ⟨o, ho, hzero, _⟩ := h
  exact ⟨o, ho, hzero⟩

theorem Sound.Shifts.plain {project : Project} {filters : List Filter}
    (h : Sound.Shifts project filters) : Plain filters := by
  obtain ⟨o, _, _, ⟨_, rfl⟩ | ⟨_, x, _, rfl⟩⟩ := h
  · simp [Plain]
  · simp [Plain]

/-- Sound is left alone unless it is shifted, and then a chain shifts it. -/
theorem Sound.offset_meets {project : Project} {source : Label}
    {stem : String} {Q : Label → FilterGraph → Prop}
    (hoffset : ¬ Offset.Readable project.microphoneOffset → excuse)
    (halone : ¬ Sound.Shifted project → Q source g)
    (hshifts : ∀ filters, Sound.Shifts project filters →
      Meets excuse (chain source filters stem) g Q) :
    Meets excuse
      (Sound.offset source (Offset.given project.microphoneOffset) stem) g Q := by
  refine .bind (Offset.ofJson_asks hoffset g) fun o g' ⟨hg, ho⟩ => ?_
  subst hg
  split
  · next hzero =>
      refine .pure (halone fun hshifted => ?_)
      obtain ⟨o', ho', hnot⟩ := hshifted
      obtain rfl : o = o' := Option.some.inj (ho.symm.trans ho')
      rw [hzero] at hnot
      cases hnot
  · next hzero =>
      rw [Bool.not_eq_true] at hzero
      split
      · next hpositive =>
          exact hshifts _ ⟨o, ho, hzero, .inl ⟨hpositive, rfl⟩⟩
      · next hnegative =>
          rw [Bool.not_eq_true] at hnegative
          refine .bind (Offset.seconds_asks ho hoffset g')
            fun seconds g'' ⟨hg, x, hx, hseconds⟩ => ?_
          subst hg hseconds
          exact hshifts _ ⟨o, ho, hzero, .inr ⟨hnegative, x, hx, rfl⟩⟩

/-- Sound that is shifted comes from a pad. -/
theorem Sound.offset_wired {k : Nat} (hk : k < ins.length) {project : Project}
    {stem : String} (hstem : isStem stem = true)
    (hoffset : ¬ Offset.Readable project.microphoneOffset → excuse)
    (h : Wired ins surplus rest g) :
    Meets excuse (Sound.offset (.input k .audio)
        (Offset.given project.microphoneOffset) stem) g fun l g' =>
      Wired ins surplus (l :: rest) g' ∧
        (l.isInput = false ↔ Sound.Shifted project) := by
  have hread := h.read hk .audio
  refine Sound.offset_meets hoffset (fun halone => ⟨hread, ?_⟩)
    fun filters hshifts => ?_
  · refine iff_of_false (fun hpad => ?_) halone
    cases hpad
  · refine (join_wired hstem (fun _ => .of_plain hshifts.plain) hread).imp
      fun l g' ⟨hl, hpad⟩ => ⟨hl, ?_⟩
    exact iff_of_true hpad hshifts.shifted

theorem Sound.microphone_wired {k : Nat} (hk : k < ins.length)
    {pieces : Option (List Piece)} {project : Project}
    (hne : ∀ ps, pieces = some ps → ps ≠ [])
    (hoffset : ¬ Offset.Readable project.microphoneOffset → excuse)
    (h : Wired ins surplus rest g) :
    Meets excuse (Sound.microphone k pieces project) g fun l g' =>
      ∃ voice : Label, (voice.isInput = false ↔ Sound.Shifted project) ∧
        Wired ins (Wired.again voice (Sound.repeats pieces) ++ surplus)
          (l :: rest) g' := by
  refine .bind (Sound.offset_wired hk (by decide) hoffset h)
    fun voice g₁ ⟨h₁, hvoice⟩ => ?_
  refine .bind (Sound.follow_wired (by decide) (by decide) project hne h₁)
    fun cut g₂ h₂ => ?_
  refine .bind (chain_linear (by decide) (by simp [Plain]) g₂ _ rest h₂)
    fun clean g₃ h₃ => ?_
  exact (Sound.gain_linear clean _ (by decide) g₃ _ rest h₃).imp
    fun l g₄ h₄ => ⟨voice, hvoice, h₄⟩

theorem Sound.mixed_linear (screen microphone : Label) :
    Linear excuse ins [screen, microphone] (Sound.mixed screen microphone) := by
  intro g surplus rest h
  refine .bind (fresh_reserved h (by decide))
    fun trigger g₁ ⟨h₁, htrigger, _⟩ => ?_
  refine .bind (fresh_reserved h₁ (by decide))
    fun voice g₂ ⟨h₂, hvoice, hapart⟩ => ?_
  obtain ⟨htrigger, hne⟩ := hapart trigger htrigger
  have hdistinct : [trigger, voice].Nodup := by simpa using hne
  have hmicrophone : Wired ins surplus ([microphone] ++ (screen :: rest)) g₂ :=
    h₂.perm (.swap ..)
  refine .bind (addChain_wired hmicrophone hdistinct (by simp [htrigger, hvoice])
    (.of_plain (by simp [Plain]))) fun _ g₃ h₃ => ?_
  have hducked : Wired ins surplus ([screen, trigger] ++ (voice :: rest)) g₃ := by
    refine h₃.perm ?_
    exact ((List.Perm.swap screen voice rest).cons trigger).trans (.swap ..)
  refine .bind (join_linear (by decide) (fun _ => .of_plain (by simp [Plain]))
    g₃ surplus _ hducked) fun ducked g₄ h₄ => ?_
  exact join_linear (by decide) (fun _ => .of_plain (by simp [Plain]))
    g₄ surplus rest h₄

end Stages

end Render

end Cutlist
