import Cutlist.Export.Command
import Cutlist.Proofs.DocumentRoundTrip
import Cutlist.Proofs.WiredExport

/-!
# What can be compiled

A command is made for a project or is not made, and what decides is only what the
document leaves as it is: the two sync offsets, and the colours and captions that
are drawn. Numbers that were converted when the document was read never matter,
whatever they are.

An action that puts a graph together does not look at the graph to decide whether
it fails. So it fails under one condition from all graphs, and the conditions of
actions that follow one another are joined.
-/

namespace Cutlist

namespace FilterGraph

/-- From every graph an action gives what meets a condition when something holds,
and fails when it does not. -/
def Yields (c : Prop) {α : Type} (m : Build α) (P : α → Prop) : Prop :=
  ∀ g, match (m.run.run g).1 with
    | .ok a => c ∧ P a
    | .error _ => ¬ c

/-- An action succeeds exactly when something holds. -/
abbrev Succeeds (c : Prop) {α : Type} (m : Build α) : Prop :=
  Yields c m fun _ => True

section Rules

variable {c d : Prop} {α β : Type} {P : α → Prop} {Q : β → Prop}

theorem Yields.pure {a : α} (h : P a) : Yields True (Pure.pure a) P :=
  fun _ => ⟨trivial, h⟩

theorem Yields.throw (e : BuildError) :
    Yields False (MonadExcept.throw e : Build α) P :=
  fun _ => id

theorem Yields.congr {m : Build α} (hm : Yields c m P) (h : c ↔ d) :
    Yields d m P :=
  propext h ▸ hm

theorem Yields.bind {m : Build α} {f : α → Build β} (hm : Yields c m P)
    (hf : ∀ a, P a → Yields d (f a) Q) : Yields (c ∧ d) (m >>= f) Q := by
  intro g
  have hg := hm g
  rw [Meets.run_bind]
  generalize m.run.run g = ran at hg
  obtain ⟨result, g'⟩ := ran
  cases result with
  | error e => exact fun h => hg h.1
  | ok a =>
      have hg' := hf a hg.2 g'
      dsimp only
      generalize ((f a).run.run g').1 = result at hg'
      cases result with
      | error e => exact fun h => hg' h.2
      | ok b => exact ⟨⟨hg.1, hg'.1⟩, hg'.2⟩

/-- What comes after an action that always succeeds decides. -/
theorem Succeeds.andThen {m : Build α} {f : α → Build β} (hm : Succeeds True m)
    (hf : ∀ a, Succeeds c (f a)) : Succeeds c (m >>= f) :=
  (Yields.bind hm fun a _ => hf a).congr (by simp)

/-- What comes before an action that always succeeds decides. -/
theorem Yields.thenAlways {m : Build α} {f : α → Build β} (hm : Yields c m P)
    (hf : ∀ a, P a → Succeeds True (f a)) : Succeeds c (m >>= f) :=
  (hm.bind hf).congr (by simp)

theorem Yields.map {m : Build α} (f : α → β) (hm : Yields c m P) :
    Succeeds c (f <$> m) := by
  rw [map_eq_pure_bind]
  exact hm.thenAlways fun a _ => .pure trivial

theorem Succeeds.fresh {stem : String} (hstem : isStem stem = true) :
    Succeeds True (FilterGraph.fresh stem) := by
  rw [FilterGraph.fresh, if_pos hstem]
  exact fun _ => ⟨trivial, trivial⟩

theorem Succeeds.addChain (inputs : List Label) (filters : List Filter)
    (outputs : List Label) :
    Succeeds True (FilterGraph.addChain inputs filters outputs) :=
  fun _ => ⟨trivial, trivial⟩

theorem Succeeds.join (inputs : List Label) (filters : List Filter)
    {stem : String} (hstem : isStem stem = true) :
    Succeeds True (FilterGraph.join inputs filters stem) :=
  (Succeeds.fresh hstem).andThen fun _ => (Succeeds.addChain _ _ _).andThen
    fun _ => .pure trivial

theorem Succeeds.chain (source : Label) (filters : List Filter) {stem : String}
    (hstem : isStem stem = true) :
    Succeeds True (FilterGraph.chain source filters stem) :=
  .join [source] filters hstem

theorem Succeeds.mapM {f : α → Build β} (hf : ∀ x, Succeeds True (f x))
    (xs : List α) : Succeeds True (xs.mapM f) := by
  induction xs with
  | nil => exact .pure trivial
  | cons x xs ih =>
      rw [List.mapM_cons]
      exact (hf x).andThen fun _ => ih.andThen fun _ => .pure trivial

/-- A loop succeeds when each of its steps does. -/
theorem Succeeds.foldlM {c : α → Prop} {f : β → α → Build β}
    (hf : ∀ b x, Succeeds (c x) (f b x)) (b : β) (xs : List α) :
    Succeeds (∀ x ∈ xs, c x) (xs.foldlM f b) := by
  induction xs generalizing b with
  | nil => exact (Yields.pure trivial).congr (by simp)
  | cons x xs ih =>
      rw [List.foldlM_cons]
      exact ((hf b x).bind fun b' _ => ih b').congr (by simp)

end Rules

end FilterGraph

open FilterGraph Render Export

/-! ## Values of a document -/

namespace Render

/-- An offset that sound can be shifted by. A delay is written as it is, however
long it is. -/
def Offset.Applicable (v : Json) : Prop :=
  ∃ o, Offset.ofJson? (Offset.given v) = some o ∧
    (o.isZero = true ∨ o.isPositive = true ∨ o.size?.isSome = true)

theorem Offset.seconds_succeeds (o : Offset) :
    Succeeds (o.size?.isSome = true) o.seconds := by
  rw [Offset.seconds]
  cases o.size? with
  | some x => exact (Yields.pure trivial).congr (by simp)
  | none => exact (Yields.throw _).congr (by simp)

/-- An action on an offset succeeds when there is one, and it does for it. -/
theorem Offset.ofJson_succeeds {α : Type} {f : Offset → Build α}
    {c : Offset → Prop} (v : Json) (hf : ∀ o, Succeeds (c o) (f o)) :
    Succeeds (∃ o, Offset.ofJson? v = some o ∧ c o) (Offset.ofJson v >>= f) := by
  rw [Offset.ofJson]
  cases Offset.ofJson? v with
  | some o => exact (hf o).congr (by simp)
  | none => exact (Yields.throw _).congr (by simp)

/-- An offset that is neither positive nor negative is in range. -/
theorem Offset.size?_of_still {o : Offset} (hpositive : o.isPositive = false)
    (hnegative : o.isNegative = false) : o.size?.isSome = true := by
  cases o with
  | whole n =>
      have hzero : n = 0 := by
        have h := of_decide_eq_false hpositive
        have h' := of_decide_eq_false hnegative
        omega
      rw [hzero]
      decide +kernel
  | real x => rfl
  | flag b => rfl

theorem Picture.syncFilters_succeeds (o : Offset) :
    Succeeds (o.size?.isSome = true) (Picture.syncFilters o) := by
  rw [Picture.syncFilters]
  split
  · exact (Offset.seconds_succeeds o).thenAlways fun _ _ => .pure trivial
  split
  · exact (Offset.seconds_succeeds o).thenAlways fun _ _ => .pure trivial
  · next hpositive hnegative =>
      have hsize := Offset.size?_of_still (eq_false_of_ne_true hpositive)
        (eq_false_of_ne_true hnegative)
      exact (Yields.pure trivial).congr (by simp [hsize])

theorem Picture.color_succeeds (a : Annotation) :
    Succeeds (a.color.text?.isSome = true) (Picture.color a) := by
  rw [Picture.color]
  cases a.color.text? with
  | some s => exact (Yields.pure trivial).congr (by simp)
  | none => exact (Yields.throw _).congr (by simp)

theorem Picture.caption_succeeds (a : Annotation) :
    Succeeds (a.text.truthy = true → a.text.text?.isSome = true)
      (Picture.caption a) := by
  rw [Picture.caption]
  split
  · next htext =>
      cases a.text.text? with
      | some s => exact (Yields.pure trivial).congr (by simp)
      | none => exact (Yields.throw _).congr (by simp [htext])
  · next htext => exact (Yields.pure trivial).congr (by simp [htext])

/-! ## The picture -/

theorem Picture.timeline_succeeds (source : Label) (pieces : List Piece)
    (size : Resolution) :
    Succeeds True (Picture.timeline source pieces size) := by
  rw [Picture.timeline]
  refine Succeeds.andThen (.mapM (fun p => .chain _ _ (by decide)) pieces)
    fun parts => ?_
  split
  · exact .pure trivial
  · exact .join _ _ (by decide)

theorem Picture.withCamera_succeeds (base camera : Label) (o : CameraOverlay)
    (v : Json) : Succeeds (Offset.Readable v)
      (Picture.withCamera base camera o (Offset.given v)) := by
  rw [Picture.withCamera]
  refine (Offset.ofJson_succeeds _ Picture.syncFilters_succeeds).thenAlways
    fun _ _ => ?_
  exact (Succeeds.chain _ _ (by decide)).andThen fun _ => .join _ _ (by decide)

/-- An annotation that is shown has a colour, and a caption that is a text or
nothing. -/
def Picture.Drawable (duration : Binary64) (a : Annotation) : Prop :=
  Picture.isBrief (Picture.window a duration) = false →
    a.color.text?.isSome = true ∧
      (a.text.truthy = true → a.text.text?.isSome = true)

theorem Picture.annotate_succeeds (duration : Binary64) (l : Label)
    (a : Annotation) :
    Succeeds (Picture.Drawable duration a) (Picture.annotate duration l a) := by
  rw [Picture.annotate]
  split
  · next hbrief =>
      exact (Yields.pure trivial).congr (by simp [Picture.Drawable, hbrief])
  · next hbrief =>
      refine Yields.congr (c := a.color.text?.isSome = true ∧
        (a.text.truthy = true → a.text.text?.isSome = true)) ?_
        (by simp [Picture.Drawable, hbrief])
      refine (Picture.color_succeeds a).bind fun color _ => ?_
      refine (Succeeds.chain _ _ (by decide)).andThen fun current => ?_
      refine (Picture.caption_succeeds a).thenAlways fun caption _ => ?_
      split
      · exact .pure trivial
      · exact .chain _ _ (by decide)

theorem Picture.animated_succeeds (source : Label) (rate height : Int) :
    Succeeds True (Picture.animated source rate height) := by
  refine (Succeeds.fresh (by decide)).andThen fun _ => ?_
  refine (Succeeds.fresh (by decide)).andThen fun _ => ?_
  refine (Succeeds.addChain _ _ _).andThen fun _ => ?_
  exact (Succeeds.chain _ _ (by decide)).andThen fun _ => .join _ _ (by decide)

/-! ## The sound -/

theorem Sound.timeline_succeeds (source : Label) (pieces : List Piece)
    {stem : String} (hstem : isStem stem = true)
    (hout : isStem (stem ++ "out") = true) (duration : Option Binary64) :
    Succeeds True (Sound.timeline source pieces stem duration) := by
  rw [Sound.timeline]
  split
  · exact .pure trivial
  refine Succeeds.andThen (.mapM (fun p => .chain _ _ hstem) pieces)
    fun parts => ?_
  split
  · exact .pure trivial
  · exact .join _ _ hout

theorem Sound.follow_succeeds (source : Label) (pieces : Option (List Piece))
    (p : Project) {stem : String} (hstem : isStem stem = true)
    (hout : isStem (stem ++ "out") = true) :
    Succeeds True (Sound.follow source pieces p stem) := by
  rw [Sound.follow.eq_def]
  split
  · exact Sound.timeline_succeeds _ _ hstem hout _
  · exact .pure trivial

theorem Sound.gain_succeeds (source : Label) (volume : Binary64) {stem : String}
    (hstem : isStem stem = true) :
    Succeeds True (Sound.gain source volume stem) := by
  rw [Sound.gain]
  split
  · exact .pure trivial
  · exact .chain _ _ hstem

theorem Sound.offset_succeeds (source : Label) (v : Json) {stem : String}
    (hstem : isStem stem = true) : Succeeds (Offset.Applicable v)
      (Sound.offset source (Offset.given v) stem) := by
  rw [Sound.offset]
  refine Offset.ofJson_succeeds _ fun o => ?_
  split
  · next hzero => exact (Yields.pure trivial).congr (by simp [hzero])
  split
  · next hpositive =>
      exact (Succeeds.chain _ _ hstem).congr (by simp [hpositive])
  · next hzero hpositive =>
      exact ((Offset.seconds_succeeds o).thenAlways fun _ _ => .chain _ _ hstem).congr
        (by simp [hzero, hpositive])

theorem Sound.screen_succeeds (pieces : Option (List Piece)) (p : Project) :
    Succeeds True (Sound.screen pieces p) :=
  (Sound.follow_succeeds _ _ _ (by decide) (by decide)).andThen fun _ =>
    Sound.gain_succeeds _ _ (by decide)

theorem Sound.microphone_succeeds (k : Nat) (pieces : Option (List Piece))
    (p : Project) : Succeeds (Offset.Applicable p.microphoneOffset)
      (Sound.microphone k pieces p) := by
  refine (Sound.offset_succeeds _ _ (by decide)).thenAlways fun _ _ => ?_
  refine (Sound.follow_succeeds _ _ _ (by decide) (by decide)).andThen fun _ => ?_
  exact (Succeeds.chain _ _ (by decide)).andThen fun _ =>
    Sound.gain_succeeds _ _ (by decide)

theorem Sound.mixed_succeeds (screen microphone : Label) :
    Succeeds True (Sound.mixed screen microphone) := by
  refine (Succeeds.fresh (by decide)).andThen fun _ => ?_
  refine (Succeeds.fresh (by decide)).andThen fun _ => ?_
  refine (Succeeds.addChain _ _ _).andThen fun _ => ?_
  exact (Succeeds.join _ _ (by decide)).andThen fun _ => .join _ _ (by decide)

theorem Sound.output_succeeds (sources : AudioSources)
    (pieces : Option (List Piece)) (p : Project) (k : Nat) :
    Succeeds (sources.hasMicrophone = true → Offset.Applicable p.microphoneOffset)
      (Sound.output sources pieces p k) := by
  rw [Sound.output_eq]
  cases sources with
  | none =>
      exact (Yields.pure trivial).congr (by simp [AudioSources.hasMicrophone])
  | screenOnly =>
      exact ((Sound.screen_succeeds pieces p).map _).congr
        (by simp [AudioSources.hasMicrophone])
  | microphoneOnly =>
      exact ((Sound.microphone_succeeds k pieces p).map _).congr
        (by simp [AudioSources.hasMicrophone])
  | both =>
      refine Yields.congr (c := Offset.Applicable p.microphoneOffset) ?_
        (by simp [AudioSources.hasMicrophone])
      refine (Sound.screen_succeeds pieces p).andThen fun _ => ?_
      exact (Sound.microphone_succeeds k pieces p).thenAlways fun _ _ =>
        (Sound.mixed_succeeds _ _).map _

end Render

/-! ## The command -/

/-- Every value that an export in a format of some kind takes from a project as it
stood in the document is one that can be used. -/
structure Project.Compiles (p : Project) (kind : Format.Kind) : Prop where
  cameraOffset : kind ≠ .sound → (ifGiven p.camera).isSome = true →
    Offset.Readable p.cameraOffset
  microphoneOffset : kind ≠ .animation → (ifGiven p.microphone).isSome = true →
    Offset.Applicable p.microphoneOffset
  annotations : kind ≠ .sound → ∀ a ∈ p.edits.annotations,
    Picture.Drawable p.duration a

/-- What an export takes belongs to the picture or to the sound. -/
theorem Project.compiles_iff {p : Project} {kind : Format.Kind} :
    p.Compiles kind ↔
      (kind ≠ .sound →
        ((ifGiven p.camera).isSome = true → Offset.Readable p.cameraOffset) ∧
          ∀ a ∈ p.edits.annotations, Picture.Drawable p.duration a) ∧
      (kind ≠ .animation → (ifGiven p.microphone).isSome = true →
        Offset.Applicable p.microphoneOffset) := by
  constructor
  · exact fun h => ⟨fun hkind => ⟨h.cameraOffset hkind, h.annotations hkind⟩,
      h.microphoneOffset⟩
  · exact fun h => ⟨fun hkind => (h.1 hkind).1, h.2, fun hkind => (h.1 hkind).2⟩

namespace Export

section Graphs

variable {p : Project} {plan : Plan}

theorem Graph.inputs_yields (plan : Plan) : Yields True (Graph.inputs plan)
    fun extras => extras.camera.isSome = plan.camera.isSome := by
  intro g
  obtain ⟨_, camera, microphone, _⟩ := plan
  cases camera <;> cases microphone <;> exact ⟨trivial, rfl⟩

theorem Graph.picture_succeeds {camera : Option Nat}
    (hcamera : camera.isSome = (ifGiven p.camera).isSome) :
    Succeeds (((ifGiven p.camera).isSome = true →
      Offset.Readable p.cameraOffset) ∧
      ∀ a ∈ p.edits.annotations, Picture.Drawable p.duration a)
      (Graph.picture p plan camera) := by
  have hcut : Succeeds True (Graph.cut p plan) := by
    rw [Graph.cut]
    split
    · exact Picture.timeline_succeeds _ _ _
    · exact .pure trivial
  refine hcut.andThen fun base => Yields.bind (P := fun _ => True) ?_ fun l _ =>
    Succeeds.foldlM (Picture.annotate_succeeds p.duration) l p.edits.annotations
  rw [← hcamera]
  cases camera with
  | none => exact (Yields.pure trivial).congr (by simp)
  | some k => exact (Picture.withCamera_succeeds _ _ _ _).congr (by simp)

theorem Graph.sound_succeeds (p : Project) (screenHasAudio : Bool)
    (microphone : Option Nat) :
    Succeeds ((ifGiven p.microphone).isSome = true →
        Offset.Applicable p.microphoneOffset)
      (Graph.sound p (Plan.ofProject p screenHasAudio) microphone) := by
  have hsound := Sound.output_succeeds (Plan.ofProject p screenHasAudio).sources
    (Plan.ofProject p screenHasAudio).timeline p (microphone.getD 0)
  rw [Plan.sources, Graph.hasMicrophone_ofPresence] at hsound
  exact hsound

/-- A graph is built exactly when a project compiles. -/
theorem Graph.build_succeeds (p : Project) (options : Options)
    (screenHasAudio : Bool) : Succeeds (p.Compiles options.format.kind)
      (Graph.build p options (Plan.ofProject p screenHasAudio)) := by
  rw [Graph.build]
  cases options.format.kind with
  | sound =>
      refine ((Graph.inputs_yields _).bind fun extras _ =>
        (Graph.sound_succeeds p screenHasAudio extras.microphone).thenAlways
          fun _ _ => .pure trivial).congr ?_
      simp [Project.compiles_iff]
  | animation =>
      refine ((Graph.inputs_yields _).bind fun extras hextras =>
        (Graph.picture_succeeds hextras).thenAlways fun _ _ =>
          (Picture.animated_succeeds _ _ _).andThen fun _ =>
            .pure trivial).congr ?_
      simp [Project.compiles_iff]
  | video =>
      refine ((Graph.inputs_yields _).bind fun extras hextras =>
        (Graph.picture_succeeds hextras).bind fun _ _ =>
          (Graph.sound_succeeds p screenHasAudio extras.microphone).thenAlways
            fun _ _ => ?_).congr ?_
      · refine Succeeds.andThen (fun _ => ⟨trivial, trivial⟩) fun g => ?_
        split
        · exact .pure trivial
        · exact (Succeeds.chain _ _ (by decide)).andThen fun _ => .pure trivial
      · simp [Project.compiles_iff]

end Graphs

namespace Command

variable {p : Project} {options : Options} {plan : Plan}

/-- A command is made exactly when its graph is. -/
theorem args_ok_iff_of_succeeds {c : Prop}
    (h : Succeeds c (Graph.build p options plan)) (platform : Platform)
    (output : String) :
    (∃ words, args p options platform plan output = .ok words) ↔ c := by
  have hbuild := h {}
  rw [args]
  generalize (Graph.build p options plan).run.run {} = built at hbuild
  obtain ⟨result, g⟩ := built
  cases result with
  | ok outputs => exact ⟨fun _ => hbuild.1, fun _ => ⟨_, rfl⟩⟩
  | error e => exact ⟨nofun, fun hc => absurd hc hbuild⟩

/-- A project gets a command for an export exactly when it compiles, whatever the
sizes, rates, platform, sound and output are. -/
theorem args_ok_iff (p : Project) (options : Options) (platform : Platform)
    (screenHasAudio : Bool) (output : String) :
    (∃ words, args p options platform (Plan.ofProject p screenHasAudio) output =
      .ok words) ↔ p.Compiles options.format.kind :=
  args_ok_iff_of_succeeds (Graph.build_succeeds p options screenHasAudio) platform
    output

/-- The document of a recording with a camera whose delay is written as a text. -/
def delayedCamera : Json :=
  .object [("id", .text "tour"), ("screenVideoPath", .text "screen.mp4"),
    ("duration", .text "60"), ("cameraVideoPath", .text "camera.mp4"),
    ("cameraOffsetMs", .text "100"),
    ("resolution", .object [("width", .int 1280), ("height", .int 720)])]

/-- A document is taken with numbers that are written as texts, and then no export
with a picture is made. -/
theorem args_delayedCamera : ∃ p, Project.ofJson default delayedCamera = .ok p ∧
    ∀ options platform screenHasAudio output, options.format.kind ≠ .sound →
      ∀ words, args p options platform (Plan.ofProject p screenHasAudio) output ≠
        .ok words := by
  have hok : (Project.ofJson default delayedCamera).toOption.isSome = true := by
    decide +kernel
  obtain ⟨p, hp⟩ := Option.isSome_iff_exists.1 hok
  replace hp := ok_of_toOption hp
  refine ⟨p, hp, fun options platform screenHasAudio output hkind words hwords => ?_⟩
  obtain ⟨ms, es, hms, htaken⟩ := Project.takenFrom_of_ofJson hp
  cases hms
  have hcompiles := (args_ok_iff_of_succeeds
    (Graph.build_succeeds p options screenHasAudio) platform output).1
      ⟨words, hwords⟩
  have hcamera : p.camera = .text "camera.mp4" := htaken.camera
  have hoffset : p.cameraOffset = .text "100" := htaken.cameraOffset
  have hreadable := hcompiles.cameraOffset hkind (by rw [hcamera]; rfl)
  rw [hoffset] at hreadable
  obtain ⟨o, ho, _⟩ := hreadable
  cases ho

end Command

end Export

end Cutlist
