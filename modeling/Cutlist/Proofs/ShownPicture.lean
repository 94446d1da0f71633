import Cutlist.Proofs.Growing
import Cutlist.Proofs.PlayedPieces
import Cutlist.Proofs.WiredExport

/-!
# What the picture of an export shows

The picture is built in stages: the screen recording is cut, the camera is laid
over it, annotations are drawn, and the result is scaled or made into an
animated image. Each stage is given here by what it does to footage, for any
footage that agrees with its chains; together they say what an export shows.
-/

namespace Cutlist

open FilterGraph Render Export Footage

/-! ## The camera -/

namespace Render.Offset

/-- How far apart two streams started, in seconds. -/
def lead (o : Offset) : Binary64 := (o.size?.getD 0) / 1000

/-- The filters that bring the camera into step. -/
def sync (o : Offset) : List Filter :=
  if o.isPositive then [.shift o.lead]
  else if o.isNegative then [.trim .video o.lead none, .restart .video]
  else []

/-- A stream that is brought into step shows an instant of its recording at
another. -/
def Shows (o : Offset) (c u : ℝ) : Prop :=
  if o.isPositive then u = c + o.lead.value
  else if o.isNegative then (o.lead.value : ℝ) ≤ c ∧ u = c - o.lead.value
  else u = c

/-- The seconds by which an offset makes a stream later. -/
noncomputable def lag (o : Offset) : ℝ :=
  if o.isPositive then o.lead.value
  else if o.isNegative then -o.lead.value
  else 0

theorem Shows.eq_add_lag {o : Offset} {c u : ℝ} (h : o.Shows c u) :
    u = c + o.lag := by
  unfold Shows at h
  unfold lag
  split at h
  · next hpos => rw [if_pos hpos, h]
  · next hpos =>
      rw [if_neg hpos]
      split at h
      · next hneg => rw [if_pos hneg, h.2, sub_eq_add_neg]
      · next hneg => rw [if_neg hneg, h, add_zero]

/-- What is seen of a recording that is brought into step. -/
def synced (o : Offset) (input : Nat) : Footage :=
  {x | ∃ c, x.2 = .picture input c ∧ o.Shows c x.1}

theorem delayed_recording (input : Nat) (delay : ℝ) :
    (recording input).delayed delay =
      {x | ∃ c, x.2 = .picture input c ∧ x.1 = c + delay} := by
  ext x
  constructor
  · intro h
    exact ⟨x.1 - delay, h, (sub_add_cancel ..).symm⟩
  · rintro ⟨c, hsight, hx⟩
    show x.2 = .picture input (x.1 - delay)
    rw [hsight, hx, add_sub_cancel_right]

/-- A recording without its beginning, from 0 on. -/
theorem restarted_recording (input : Nat) (start : ℝ) :
    ((recording input).within start none).replayed 1 =
      {x | ∃ c, x.2 = .picture input c ∧ start ≤ c ∧ x.1 = c - start} := by
  have hinstants : ((recording input).within start none).instants =
      Set.Ici start := by
    ext u
    rw [mem_instants]
    constructor
    · rintro ⟨_, _, hstart, _⟩
      exact hstart
    · intro hstart
      exact ⟨.picture input u, rfl, hstart, fun _ h => nomatch h⟩
  ext x
  constructor
  · rintro ⟨first, c, hfirst, ⟨hsight, hstart, _⟩, hx⟩
    rw [hinstants] at hfirst
    obtain rfl := hfirst.unique isLeast_Ici
    rw [div_one] at hx
    exact ⟨c, hsight, hstart, hx⟩
  · rintro ⟨c, hsight, hstart, hx⟩
    refine ⟨start, c, ?_, ⟨hsight, hstart, fun _ h => nomatch h⟩, ?_⟩
    · rw [hinstants]
      exact isLeast_Ici
    · rw [div_one, hx]

theorem runs_sync (o : Offset) (input : Nat) :
    runs o.sync (recording input) = o.synced input := by
  unfold sync synced Shows
  split
  · exact delayed_recording input o.lead.value
  · split
    · exact restarted_recording input o.lead.value
    · ext x
      constructor
      · intro h
        exact ⟨x.1, h, rfl⟩
      · rintro ⟨c, hsight, rfl⟩
        exact hsight

end Render.Offset

section Stages

variable {excuse : Prop} {base : Label} {k : Nat}

theorem Render.Picture.sync_reads {v : Json}
    (h : ¬ Offset.Readable v → excuse) (g : FilterGraph) :
    Meets excuse (Offset.ofJson (Offset.given v) >>= Picture.syncFilters) g
      fun filters g' => g' = g ∧
        ∃ o, Offset.ofJson? (Offset.given v) = some o ∧ filters = o.sync := by
  refine .bind (Offset.ofJson_asks h g) fun o g' ⟨hg, ho⟩ => ?_
  subst hg
  have hlead {t x : Binary64} (hx : o.size? = some x) (ht : t = x / 1000) :
      t = o.lead := by
    rw [ht, Offset.lead, hx]
    rfl
  rw [Picture.syncFilters]
  split
  · next hpos =>
      refine .bind (Offset.seconds_asks ho h g') ?_
      rintro t g'' ⟨hg, x, hx, ht⟩
      refine .pure ⟨hg, o, ho, ?_⟩
      rw [Offset.sync, if_pos hpos, hlead hx ht]
  · next hpos =>
      split
      · next hneg =>
          refine .bind (Offset.seconds_asks ho h g') ?_
          rintro t g'' ⟨hg, x, hx, ht⟩
          refine .pure ⟨hg, o, ho, ?_⟩
          rw [Offset.sync, if_neg hpos, if_pos hneg, hlead hx ht]
      · next hneg =>
          refine .pure ⟨rfl, o, ho, ?_⟩
          rw [Offset.sync, if_neg hpos, if_neg hneg]

/-- The camera goes to the overlay in step, enlarged, and not otherwise
changed. -/
def LaidOver (project : Project) (k : Nat) (chains : List Chain) : Prop :=
  ∃ o base synced out,
    Offset.ofJson? (Offset.given project.cameraOffset) = some o ∧
    ⟨[.input k .video], o.sync ++ [.enlarge
      (project.edits.overlay.scale.greater Picture.minCameraScale)],
        [synced]⟩ ∈ chains ∧
    ⟨[base, synced], [.overlay (Picture.placement project.edits.overlay)],
      [out]⟩ ∈ chains

theorem LaidOver.append {project : Project} {k : Nat} {chains : List Chain}
    (h : LaidOver project k chains) (before after : List Chain) :
    LaidOver project k (before ++ chains ++ after) := by
  obtain ⟨o, base, synced, out, ho, hsynced, hout⟩ := h
  have hkept : ∀ c ∈ chains, c ∈ before ++ chains ++ after := fun c hc =>
    List.mem_append_left _ (List.mem_append_right _ hc)
  exact ⟨o, base, synced, out, ho, hkept _ hsynced, hkept _ hout⟩

/-- The camera is laid over the picture as its offset has it. -/
theorem Render.Picture.withCamera_shows {project : Project}
    (h : ¬ Offset.Readable project.cameraOffset → excuse) :
    Adds excuse (Picture.withCamera base (.input k .video)
        project.edits.overlay (Offset.given project.cameraOffset)) fun l new =>
      new ≠ [] ∧ LaidOver project k new ∧
        ∃ o, Offset.ofJson? (Offset.given project.cameraOffset) = some o ∧
          ∀ F, Obeys F new → Records F → F l = (F base).covered (o.synced k) := by
  refine .ask (Picture.sync_reads h) fun sync ⟨o, ho, hsync⟩ => ?_
  subst hsync
  refine .bind (P := fun l new =>
    new = [⟨[.input k .video], o.sync ++ [.enlarge
      (project.edits.overlay.scale.greater Picture.minCameraScale)], [l]⟩])
    (.join (by decide) fun _ => rfl) fun synced new hnew => ?_
  subst hnew
  refine .join (by decide) fun name => ⟨List.cons_ne_nil _ _,
    ⟨o, base, synced, .pad name, ho, List.mem_cons_self ..,
      List.mem_cons_of_mem _ (List.mem_singleton.2 rfl)⟩,
    o, ho, fun F hF hrecords => ?_⟩
  have hsynced : F synced = o.synced k := by
    rw [hF.left.single, hrecords, runs_append, Offset.runs_sync]
    rfl
  rw [hF.right _ (List.mem_singleton.2 rfl) _ (List.mem_singleton.2 rfl)]
  show (F base).covered (F synced) = _
  rw [hsynced]

end Stages

/-! ## Annotations -/

namespace Render.Picture

/-- The filter that writes the caption of an annotation, if it has one. -/
def captions (duration : Binary64) (a : Annotation) : List Filter :=
  if (words a).isEmpty then []
  else [.drawText (corner a) (words a) (opacity a) (window a duration)]

/-- The filters that draw an annotation, if it is shown for long enough. -/
def drawings (duration : Binary64) (a : Annotation) : List Filter :=
  if isBrief (window a duration) then []
  else box a (ink a) (window a duration) :: captions duration a

end Render.Picture

namespace FilterGraph

/-- Filters one behind another: each chain has one filter, and takes what the one
before gives. With no filter, what is taken is given. -/
inductive Threads : Label → List Filter → List Chain → Label → Prop
  | nil (l : Label) : Threads l [] [] l
  | cons {l l' last : Label} {f : Filter} {fs : List Filter} {new : List Chain}
      (rest : Threads l' fs new last) :
      Threads l (f :: fs) (⟨[l], [f], [l']⟩ :: new) last

namespace Threads

variable {l l' l'' : Label} {fs gs : List Filter} {new more : List Chain}

theorem single (l l' : Label) (f : Filter) :
    Threads l [f] [⟨[l], [f], [l']⟩] l' :=
  .cons (.nil l')

theorem append (h : Threads l fs new l') (h' : Threads l' gs more l'') :
    Threads l (fs ++ gs) (new ++ more) l'' := by
  induction h with
  | nil l => exact h'
  | cons _ ih => exact .cons (ih h')

theorem eq_of_nil (h : Threads l fs new l') (hnil : new = []) : l' = l := by
  cases h with
  | nil l => rfl
  | cons _ => cases hnil

/-- A thread shows what its filters make of what it takes. -/
theorem shows {F : Label → Footage} (h : Threads l fs new l') (hF : Obeys F new) :
    F l' = runs fs (F l) := by
  induction h with
  | nil l => rfl
  | @cons l l' last f fs new rest ih =>
      change Obeys F ([⟨[l], [f], [l']⟩] ++ new) at hF
      rw [ih hF.right, hF.left.single]
      exact (runs_append [f] fs (F l)).symm

end Threads

end FilterGraph

section Stages

variable {excuse : Prop}

theorem FilterGraph.chain_threads (source : Label) (f : Filter) {stem : String}
    (hstem : isStem stem = true) :
    Adds excuse (chain source [f] stem) fun l new => Threads source [f] new l :=
  .join hstem fun name => .single source (.pad name) f

theorem Render.Picture.annotate_threads {duration : Binary64} {a : Annotation}
    (hcolor : isBrief (window a duration) = false →
      a.color.text? = none → excuse)
    (hcaption : isBrief (window a duration) = false →
      a.text.truthy = true → a.text.text? = none → excuse)
    (current : Label) :
    Adds excuse (annotate duration current a) fun l new =>
      Threads current (drawings duration a) new l := by
  rw [annotate, drawings]
  split
  · exact .pure (.nil current)
  · next hshown =>
      rw [Bool.not_eq_true] at hshown
      refine .ask (color_asks (hcolor hshown)) fun color hink => ?_
      subst hink
      refine .bind (chain_threads current _ (by decide)) fun boxed new hbox => ?_
      refine .ask (caption_asks (hcaption hshown)) fun caption hwords => ?_
      subst hwords
      rw [captions]
      split
      · exact .pure (by rwa [List.append_nil])
      · exact (chain_threads boxed _ (by decide)).imp fun _ _ htext =>
          hbox.append htext

/-- Annotations are drawn one on top of another. -/
theorem Render.Picture.withAnnotations_threads {project : Project}
    (hcolor : ∀ a ∈ project.edits.annotations,
      isBrief (window a project.duration) = false → a.color.text? = none → excuse)
    (hcaption : ∀ a ∈ project.edits.annotations,
      isBrief (window a project.duration) = false →
        a.text.truthy = true → a.text.text? = none → excuse)
    (current : Label) :
    Adds excuse (withAnnotations current project) fun l new =>
      Threads current
        (project.edits.annotations.flatMap (drawings project.duration))
          new l := by
  rw [withAnnotations]
  generalize project.edits.annotations = todo at hcolor hcaption ⊢
  induction todo generalizing current with
  | nil => exact .pure (.nil current)
  | cons a todo ih =>
      obtain ⟨hink, hcolor⟩ := List.forall_mem_cons.1 hcolor
      obtain ⟨hwords, hcaption⟩ := List.forall_mem_cons.1 hcaption
      rw [List.foldlM_cons, List.flatMap_cons]
      refine .bind (annotate_threads hink hwords current) fun l new hfirst => ?_
      exact (ih l hcolor hcaption).imp fun _ _ hrest => hfirst.append hrest

theorem Export.Graph.withAnnotations_shows {project : Project}
    (current : Label) :
    Adds (¬ project.Usable) (Picture.withAnnotations current project)
      fun l new => (new = [] → l = current) ∧ ∀ F, Obeys F new →
        F l = runs (project.edits.annotations.flatMap
          (Picture.drawings project.duration)) (F current) :=
  (Picture.withAnnotations_threads
    (fun _ ha _ => Project.not_usable_of_color ha)
    (fun _ ha _ => Project.not_usable_of_caption ha) current).imp
    fun _ _ h => ⟨h.eq_of_nil, fun _ hF => h.shows hF⟩

theorem Render.Picture.scaled_shows (video : Label) (height : Int) :
    Adds excuse (Picture.scaled video height) fun l new =>
      ∀ F, Obeys F new → F l = F video :=
  .join (by decide) fun _ _ hF => hF.single

theorem Render.Picture.animated_shows (video : Label) (rate height : Int) :
    Adds excuse (Picture.animated video rate height) fun l new =>
      ∀ F, Obeys F new → F l = F video := by
  refine (Picture.animated_adds video rate height).imp
    fun l new ⟨first, second, palette, hnew⟩ F hF => ?_
  -- The copy from which the palette is made has no part in what is seen.
  have hsecond : F second = F video := by
    rw [hF ⟨[video], [.frameRate rate, .fitImage height, .splitVideo],
      [first, second]⟩ (by simp [hnew]) second (by simp)]
    exact shows_single ..
  rw [hF ⟨[second, palette], [.usePalette], [l]⟩ (by simp [hnew]) l (by simp),
    ← hsecond]
  rfl

end Stages

/-! ## All of it -/

namespace Export

/-- What the screen recording shows once it is cut. -/
def cutFootage (plan : Plan) : Footage :=
  if !plan.fast && plan.edited then played 0 plan.pieces else recording 0

/-- What is seen of the camera. -/
def cameraFootage (project : Project) (k : Nat) : Footage :=
  {x | ∃ o, Offset.ofJson? (Offset.given project.cameraOffset) = some o ∧
    x ∈ o.synced k}

/-- What the camera is laid over, with the camera if there is one. -/
def coveredFootage (project : Project) (plan : Plan) (camera : Option Nat) :
    Footage :=
  match camera with
  | some k => (cutFootage plan).covered (cameraFootage project k)
  | none => cutFootage plan

/-- What an export shows. -/
noncomputable def pictureFootage (project : Project) (plan : Plan)
    (camera : Option Nat) : Footage :=
  runs (project.edits.annotations.flatMap
    (Picture.drawings project.duration)) (coveredFootage project plan camera)

/-- The pieces of a plan advance, if there are several. -/
def Plan.Advances (plan : Plan) : Prop :=
  1 < plan.pieces.length → ∀ q ∈ plan.pieces, q.Advances

namespace Graph

variable {project : Project} {plan : Plan}

theorem cut_shows {excuse : Prop} (hne : plan.pieces ≠ [])
    (hadvance : plan.Advances) :
    Adds excuse (cut project plan) fun l new =>
      (new = [] → l = .input 0 .video) ∧ ∀ F, Obeys F new → Records F →
        F l = cutFootage plan := by
  rw [cut, cutFootage]
  split
  · refine (Picture.timeline_shows 0 project.resolution hne hadvance).imp ?_
    rintro l new ⟨hnew, hshow⟩
    refine ⟨fun h => absurd h hnew, fun F hF hrecords => ?_⟩
    exact hshow F hF (hrecords 0 .video)
  · exact .pure ⟨fun _ => rfl, fun F _ hrecords => hrecords 0 .video⟩

theorem overlaid_shows (plan : Plan) (base : Label) (camera : Option Nat) :
    Adds (¬ project.Usable) (overlaid project base camera) fun l new =>
      (new = [] → l = base) ∧ (∀ k, camera = some k → LaidOver project k new) ∧
        ∀ F, Obeys F new → Records F → F base = cutFootage plan →
          F l = coveredFootage project plan camera := by
  cases camera with
  | none => exact .pure ⟨fun _ => rfl, (fun _ h => nomatch h), fun _ _ _ h => h⟩
  | some k =>
      refine (Picture.withCamera_shows
        fun hoffset husable => hoffset husable.cameraOffset).imp
        fun l new ⟨hnew, hlaid, o, ho, hshow⟩ =>
          ⟨fun h => absurd h hnew, fun k' hk' => ?_,
            fun F hF hrecords hbase => ?_⟩
      · cases hk'
        exact hlaid
      · have hcamera : cameraFootage project k = o.synced k := by
          ext x
          constructor
          · rintro ⟨o', ho', hx⟩
            rw [ho] at ho'
            cases ho'
            exact hx
          · exact fun hx => ⟨o, ho, hx⟩
        rw [hshow F hF hrecords, hbase, coveredFootage, hcamera]

theorem picture_shows (hne : plan.pieces ≠ []) (hadvance : plan.Advances)
    (camera : Option Nat) :
    Adds (¬ project.Usable) (picture project plan camera) fun l new =>
      (new = [] → l = .input 0 .video) ∧
        (∀ k, camera = some k → LaidOver project k new) ∧
        ∀ F, Obeys F new → Records F →
          F l = pictureFootage project plan camera := by
  refine .bind (cut_shows hne hadvance) fun base new ⟨hnone, hbase⟩ => ?_
  refine .bind (overlaid_shows plan base camera)
    fun l more ⟨hsame, hlaid, hl⟩ => ?_
  refine (withAnnotations_shows l).imp fun l' drawn ⟨hsame', hdrawn⟩ =>
    ⟨fun h => ?_, fun k hk => ?_, fun F hF hrecords => ?_⟩
  · rw [List.append_eq_nil_iff, List.append_eq_nil_iff] at h
    rw [hsame' h.2.2, hsame h.2.1, hnone h.1]
  · rw [← List.append_assoc]
    exact (hlaid k hk).append new drawn
  · rw [hdrawn F hF.right.right, hl F hF.right.left hrecords
      (hbase F hF.left hrecords), pictureFootage]

/-- The label whose pictures an export shows: where no chain made any, the
screen recording. -/
def Outputs.shown (out : Outputs) : Label := out.video.getD (.input 0 .video)

/-- Whatever agrees with the chains shows the picture of the export. -/
theorem build_obeyed (options : Options)
    (hkind : options.format.kind ≠ .sound) (hne : plan.pieces ≠ [])
    (hadvance : plan.Advances) :
    Meets True (build project options plan) {} fun out g =>
      (∀ k, out.camera = some k → LaidOver project k g.chains) ∧
        ∀ F, Obeys F g.chains → Records F →
          F out.shown = pictureFootage project plan out.camera := by
  refine .bind (inputs_meets plan) fun extras g ⟨hstart, _⟩ => ?_
  have hpicture := ((picture_shows hne hadvance extras.camera) g).excused
    fun _ : ¬ project.Usable => trivial
  -- What is added behind the chains of the picture changes nothing there.
  have behind {shown : List Chain} (more : List Chain)
      (hlaid : ∀ k, extras.camera = some k → LaidOver project k shown) :
      ∀ k, extras.camera = some k → LaidOver project k (shown ++ more) :=
    fun k hk => (hlaid k hk).append [] more
  cases hshape : options.format.kind with
  | sound => exact absurd hshape hkind
  | animation =>
      refine .bind hpicture fun video g₁ ⟨shown, hchains, _, hlaid, hshow⟩ => ?_
      have hanimated : Adds True (animation video options) _ :=
        Picture.animated_shows video _ _
      refine .bind (hanimated g₁) fun scaled g₂ ⟨more, hmore, hlast⟩ => .pure ?_
      rw [hmore, hchains, hstart, List.nil_append]
      refine ⟨behind more hlaid, fun F hF hrecords => ?_⟩
      rw [← hshow F hF.left hrecords, ← hlast F hF.right]
      rfl
  | video =>
      refine .bind hpicture
        fun video g₁ ⟨shown, hchains, hnone, hlaid, hshow⟩ => ?_
      refine .bind ((sound_made extras.microphone).keeps.grows g₁)
        fun audio g₂ hgrows => ?_
      obtain ⟨heard, hheard, _⟩ := hgrows.chains
      refine .bind (.get (Q := fun seen g' => seen = g' ∧ g' = g₂) ⟨rfl, rfl⟩)
        fun seen g' ⟨hseen, hg'⟩ => ?_
      subst hg' hseen
      have hall : seen.chains = shown ++ heard := by
        rw [hheard, hchains, hstart, List.nil_append]
      split
      · next hempty =>
          rw [FilterGraph.isEmpty, hall, List.isEmpty_iff,
            List.append_eq_nil_iff] at hempty
          refine .pure ?_
          rw [hall]
          refine ⟨behind heard hlaid, fun F hF hrecords => ?_⟩
          rw [← hshow F hF.left hrecords, hnone hempty.1]
          rfl
      · refine .bind (Picture.scaled_shows video options.size.height seen)
          fun scaled g₃ ⟨more, hmore, hlast⟩ => .pure ?_
        rw [hmore, hall]
        refine ⟨?_, fun F hF hrecords => ?_⟩
        · rw [List.append_assoc]
          exact behind (heard ++ more) hlaid
        · rw [← hshow F hF.left.left hrecords, ← hlast F hF.right]
          rfl

/-- The footage of a graph is what its stages make of the recordings. -/
theorem build_shows (options : Options) (hkind : options.format.kind ≠ .sound)
    (hne : plan.pieces ≠ []) (hadvance : plan.Advances) :
    Meets (¬ project.Usable) (build project options plan) {} fun out g =>
      Registered plan out.toExtras g.inputs ∧
        (∀ k, out.camera = some k → LaidOver project k g.chains) ∧
        footage g.chains out.shown = pictureFootage project plan out.camera := by
  refine ((build_account project options plan hne).and
    (build_obeyed options hkind hne hadvance)).imp
    fun out g ⟨⟨hregistered, more, hwired, _⟩, hlaid, hshow⟩ =>
      ⟨hregistered, hlaid, ?_⟩
  have hpads : ∀ l ∈ g.chains.flatMap Chain.outputs, l.isInput = false :=
    fun l hl => (hwired.named l hl).not_isInput
  exact hshow _ (footage_obeys hwired.inOrder hwired.distinct hpads)
    (footage_records hpads)

end Graph

end Export

end Cutlist
