import Cutlist.Proofs.Trimming

/-!
# What each stage of an export trims

The picture and the sound of the screen recording are cut by stages of their
own, each of which decides for itself whether it cuts at all. `Treated` keeps
that decision next to what follows from it. The camera picture and the sound of
the microphone may lose their beginning when they are brought into step, which
trims their own streams only; no other stage trims anything.
-/

namespace Cutlist

open FilterGraph Render Export

namespace FilterGraph

/-- A label is cut along a timeline, or left alone. -/
def Treated (cut : Bool) (chains : List Chain) (stream : Stream)
    (source : Label) (pieces : List Piece) : Prop :=
  if cut then CutAlong chains stream source pieces else Uncut chains source

/-- No other label is trimmed. -/
def TrimsOnly (source : Label) (chains : List Chain) : Prop :=
  ∀ other, other ≠ source → Uncut chains other

/-- A chain runs filters on a label and ends in one pad. -/
def Runs (source : Label) (filters : List Filter) (c : Chain) : Prop :=
  ∃ l, c = ⟨[source], filters, [l]⟩

namespace Treated

variable {cut : Bool} {xs ys : List Chain} {stream : Stream} {source : Label}
variable {pieces : List Piece}

theorem append_left (h : Treated cut xs stream source pieces)
    (hy : Uncut ys source) : Treated cut (ys ++ xs) stream source pieces := by
  rw [Treated] at h ⊢
  split at h
  · next hcut => rw [if_pos hcut]; exact h.append_left hy
  · next hcut => rw [if_neg hcut]; exact hy.append h

theorem append_right (h : Treated cut xs stream source pieces)
    (hy : Uncut ys source) : Treated cut (xs ++ ys) stream source pieces := by
  rw [Treated] at h ⊢
  split at h
  · next hcut => rw [if_pos hcut]; exact h.append_right hy
  · next hcut => rw [if_neg hcut]; exact h.append hy

end Treated

/-! ## Labels -/

theorem Label.video_ne_audio (i j : Nat) :
    Label.input i .video ≠ .input j .audio := by
  intro h
  cases h

theorem Label.pad_ne_input (name : String) (i : Nat) (stream : Stream) :
    Label.pad name ≠ .input i stream := by
  intro h
  cases h

/-! ## Chains without a trim -/

theorem uncut_singleton {c : Chain} (h : c.trims = []) (source : Label) :
    Uncut [c] source := by
  refine .of_not_mem fun d hd hne => ?_
  rw [List.mem_singleton] at hd
  subst hd
  exact absurd h hne

theorem trimsOnly_singleton {source : Label} {filters : List Filter}
    {outputs : List Label} : TrimsOnly source [⟨[source], filters, outputs⟩] := by
  intro other hother
  refine .of_not_mem fun c hc _ hread => hother ?_
  rw [List.mem_singleton] at hc
  subst hc
  exact List.mem_singleton.1 hread

theorem Shows.trims_ne_nil {stream : Stream} {source : Label} {q : Piece}
    {c : Chain} (h : Shows stream source q c) : c.trims ≠ [] := by
  intro hnil
  have htrims := h.trims
  rw [hnil] at htrims
  cases htrims

section Parts

variable {stream : Stream} {source : Label} {pieces : List Piece}
variable {chains : List Chain}

theorem trimming_of_shows
    (h : List.Forall₂ (Shows stream source) pieces chains) :
    trimming chains source = chains := by
  rw [trimming, List.filter_eq_self]
  induction h with
  | nil =>
      intro c hc
      cases hc
  | cons hshows _ ih =>
      intro c hc
      rcases List.mem_cons.1 hc with rfl | hmem
      · simp [hshows.reads, hshows.trims_ne_nil]
      · exact ih c hmem

theorem trimsOnly_of_shows
    (h : List.Forall₂ (Shows stream source) pieces chains) :
    TrimsOnly source chains := by
  intro other hne
  refine .of_not_mem ?_
  induction h with
  | nil =>
      intro c hc
      cases hc
  | cons hshows _ ih =>
      intro c hc
      rcases List.mem_cons.1 hc with rfl | hmem
      · intro _ hread
        rw [hshows.reads, List.mem_singleton] at hread
        exact hne hread
      · exact ih c hmem

/-- Chains that end in one pad each end in as many pads as there are pieces. -/
theorem length_outputs {ends : Piece → Chain → Prop}
    (hone : ∀ q c, ends q c → ∃ l, c.outputs = [l])
    (h : List.Forall₂ ends pieces chains) :
    (chains.flatMap Chain.outputs).length = pieces.length := by
  induction h with
  | nil => rfl
  | cons hends _ ih =>
      obtain ⟨l, hl⟩ := hone _ _ hends
      rw [List.flatMap_cons, hl, List.length_append, ih, List.length_singleton,
        List.length_cons, Nat.add_comm]

end Parts

theorem toText_trim (stream : Stream) (q : Piece) :
    (Filter.trim stream q.start (some q.stop)).toText =
      stream.mark ++ trimText q := by
  change s!"{stream.mark}trim=start={q.start.toFixed 6}:end={q.stop.toFixed 6}" =
    stream.mark ++ s!"trim=start={q.start.toFixed 6}:end={q.stop.toFixed 6}"
  simp only [String.append_assoc]
  rfl

end FilterGraph

namespace Render

theorem Tempo.trims_filtersOf (factors : List Binary64) :
    (Tempo.filtersOf factors).filter Filter.isTrim = [] := by
  fun_induction Tempo.filtersOf factors with
  | case1 => rfl
  | case2 last => rfl
  | case3 factor rest _ ih => exact ih

theorem Sound.trims_pieceFilters (q : Piece) :
    (Sound.pieceFilters q).filter Filter.isTrim =
      [.trim .audio q.start (some q.stop)] := by
  rw [Sound.pieceFilters, List.filter_append, Tempo.filters,
    Tempo.trims_filtersOf]
  rfl

theorem Picture.trims_pieceFilters (size : Resolution) (q : Piece) :
    (Picture.pieceFilters size q).filter Filter.isTrim =
      [.trim .video q.start (some q.stop)] := by
  rw [Picture.pieceFilters]
  cases q.zoom with
  | none => rfl
  | some zoom => rfl

section Stages

variable {excuse : Prop} {source : Label} {stem : String}

theorem chain_still {filters : List Filter} (hstem : isStem stem = true)
    (hplain : filters.filter Filter.isTrim = []) :
    Still excuse (chain source filters stem) :=
  .join hstem fun _ => uncut_singleton hplain

/-! ## Pieces -/

/-- Each piece adds its own chain, which ends in one pad. -/
theorem parts_run {filters : Piece → List Filter} (hstem : isStem stem = true)
    (pieces : List Piece) :
    Adds excuse (pieces.mapM fun q => chain source (filters q) stem)
      fun parts new => List.Forall₂ (fun q c => Runs source (filters q) c)
        pieces new ∧ parts = new.flatMap Chain.outputs := by
  intro g
  refine (Meets.mapM (fun done todo g' => ∃ seen new, seen ++ todo = pieces ∧
    g'.chains = g.chains ++ new ∧
    List.Forall₂ (fun q c => Runs source (filters q) c) seen new ∧
      done = new.flatMap Chain.outputs)
    (fun done q todo g' ⟨seen, new, hseen, hnew, hruns, hdone⟩ => ?_)
    ⟨[], [], rfl, (List.append_nil _).symm, .nil, rfl⟩).imp
    fun parts g' ⟨seen, new, hseen, hnew, hruns, hparts⟩ => ?_
  · refine (Adds.join (P := fun l more => more = [⟨[source], filters q, [l]⟩])
      hstem (fun _ => rfl) g').imp fun l g'' ⟨more, hmore, hl⟩ => ?_
    subst hl
    refine ⟨seen ++ [q], new ++ [⟨[source], filters q, [l]⟩], ?_, ?_, ?_, ?_⟩
    · rw [List.append_assoc]
      exact hseen
    · rw [hmore, hnew, List.append_assoc]
    · exact List.rel_append hruns (.cons ⟨l, rfl⟩ .nil)
    · rw [hdone, List.flatMap_append]
      rfl
  · rw [List.append_nil] at hseen
    subst hseen
    exact ⟨new, hnew, hruns, hparts⟩

theorem parts_adds {stream : Stream} {filters : Piece → List Filter}
    (hstem : isStem stem = true)
    (hfilters : ∀ q, (filters q).filter Filter.isTrim =
      [.trim stream q.start (some q.stop)]) (pieces : List Piece) :
    Adds excuse (pieces.mapM fun q => chain source (filters q) stem)
      fun parts new => List.Forall₂ (Shows stream source) pieces new ∧
        parts = new.flatMap Chain.outputs := by
  refine (parts_run hstem pieces).imp fun parts new ⟨hruns, hparts⟩ =>
    ⟨hruns.imp fun q c ⟨l, hc⟩ => ?_, hparts⟩
  subst hc
  refine ⟨rfl, ?_, l, rfl⟩
  rw [Chain.trims, hfilters, List.map_singleton, toText_trim]

/-- A label is cut into parts, and several parts are put together again. -/
theorem cut_adds {stream : Stream} {filters : Piece → List Filter}
    (hstem : isStem stem = true)
    (hfilters : ∀ q, (filters q).filter Filter.isTrim =
      [.trim stream q.start (some q.stop)]) {pieces : List Piece}
    (hne : pieces ≠ []) {out : String} (hout : isStem out = true)
    {f : List Label → Build Label} (hone : ∀ part, f [part] = pure part)
    (hmore : ∀ a b more, f (a :: b :: more) = join (a :: b :: more)
      [.concat stream (a :: b :: more).length] out) :
    Adds excuse ((pieces.mapM fun q => chain source (filters q) stem) >>= f)
      fun _ new => CutAlong new stream source pieces ∧ TrimsOnly source new := by
  refine .bind (parts_adds hstem hfilters pieces)
    fun parts new ⟨hshows, hparts⟩ => ?_
  have hlength : parts.length = pieces.length := by
    rw [hparts, length_outputs (fun _ _ h => h.ends) hshows]
  have htrimming := trimming_of_shows hshows
  rcases parts with _ | ⟨part, _ | ⟨next, more⟩⟩
  · exact absurd (List.length_eq_zero_iff.1 hlength.symm) hne
  · rw [hone]
    refine .pure ?_
    rw [List.append_nil]
    refine ⟨⟨?_, fun hmany => ?_⟩, trimsOnly_of_shows hshows⟩
    · rw [htrimming]
      exact hshows
    · rw [← hlength] at hmany
      cases Nat.lt_irrefl 1 hmany
  · rw [hmore]
    refine .join hout fun name => ?_
    have hstill := uncut_singleton (c := ⟨part :: next :: more,
      [.concat stream (part :: next :: more).length], [.pad name]⟩) rfl
    refine ⟨⟨?_, fun _ => ⟨.pad name, ?_⟩⟩, fun other hother =>
      (trimsOnly_of_shows hshows other hother).append (hstill other)⟩
    · rw [trimming_append, htrimming, hstill source, List.append_nil]
      exact hshows
    · rw [trimming_append, htrimming, hstill source, List.append_nil,
        ← hparts, ← hlength]
      exact List.mem_append_right _ (List.mem_singleton.2 rfl)

theorem Picture.timeline_adds (size : Resolution) {pieces : List Piece}
    (hne : pieces ≠ []) :
    Adds excuse (Picture.timeline source pieces size) fun _ new =>
      CutAlong new .video source pieces ∧ TrimsOnly source new := by
  exact cut_adds (by decide) (Picture.trims_pieceFilters size) hne
    (show isStem "vconcat" = true by decide) (fun _ => rfl) fun _ _ _ => rfl

theorem Sound.timeline_adds (hstem : isStem stem = true)
    (hout : isStem (stem ++ "out") = true) {pieces : List Piece}
    (duration : Option Binary64) (hne : pieces ≠ []) :
    Adds excuse (Sound.timeline source pieces stem duration) fun _ new =>
      Treated (!Sound.isUntouched pieces duration) new .audio source pieces ∧
        TrimsOnly source new := by
  rw [Sound.timeline]
  split
  · next huntouched =>
      rw [huntouched]
      exact .pure ⟨.nil, fun _ _ => .nil⟩
  · next hcut =>
      rw [Bool.not_eq_true] at hcut
      rw [hcut]
      exact cut_adds hstem Sound.trims_pieceFilters hne hout (fun _ => rfl)
        fun _ _ _ => rfl

/-! ## The picture -/

theorem Picture.withCamera_adds {base camera : Label} (o : CameraOverlay)
    {v : Json} (hoffset : ¬ Offset.Readable v → excuse) :
    Adds excuse (Picture.withCamera base camera o (Offset.given v))
      fun _ new => TrimsOnly camera new := by
  refine .ask (Picture.sync_asks hoffset) fun sync _ => ?_
  refine .bind (P := fun _ new => TrimsOnly camera new)
    (.join (by decide) fun name => trimsOnly_singleton) fun synced new hnew => ?_
  refine .join (by decide) fun name other hother => ?_
  exact (hnew other hother).append (uncut_singleton rfl other)

theorem Picture.annotate_still {duration : Binary64} {a : Annotation}
    (hcolor : a.color.text? = none → excuse)
    (hcaption : a.text.truthy = true → a.text.text? = none → excuse)
    (l : Label) : Still excuse (Picture.annotate duration l a) := by
  rw [Picture.annotate]
  split
  · exact .pure fun _ => .nil
  · refine .ask (Picture.color_asks hcolor) fun color _ => ?_
    refine .bind (chain_still (by decide) rfl) fun drawn new hnew => ?_
    refine .ask (Picture.caption_asks hcaption) fun caption _ => ?_
    split
    · refine .pure ?_
      rw [List.append_nil]
      exact hnew
    · exact (chain_still (by decide) rfl).imp fun _ more hmore source =>
        (hnew source).append (hmore source)

/-! ## The sound -/

theorem Sound.gain_still (l : Label) (volume : Binary64)
    (hstem : isStem stem = true) :
    Still excuse (Sound.gain l volume stem) := by
  rw [Sound.gain]
  split
  · exact .pure fun _ => .nil
  · exact chain_still hstem rfl

theorem Sound.screen_adds {pieces : List Piece} (project : Project)
    (hne : pieces ≠ []) :
    Adds excuse (Sound.screen (some pieces) project) fun _ new =>
      Treated (!Sound.isUntouched pieces (some project.duration)) new .audio
        (.input 0 .audio) pieces ∧ TrimsOnly (.input 0 .audio) new := by
  refine .bind (Sound.timeline_adds (by decide) (by decide) _ hne)
    fun cut new ⟨hcut, honly⟩ => ?_
  refine (Sound.gain_still cut _ (by decide)).imp fun l more hmore => ?_
  exact ⟨hcut.append_right (hmore _), fun other hother =>
    (honly other hother).append (hmore other)⟩

/-- The sound of the microphone once it is in step: its own stream, or the pad
of the chain that shifts it. -/
def InStepWith (project : Project) (chains : List Chain) (k : Nat)
    (voice : Label) : Prop :=
  (¬ Sound.Shifted project ∧ voice = .input k .audio) ∨
    (voice.isInput = false ∧ ∃ filters, Sound.Shifts project filters ∧
      ⟨[.input k .audio], filters, [voice]⟩ ∈ chains)

theorem InStepWith.append {project : Project} {chains : List Chain} {k : Nat}
    {voice : Label} (h : InStepWith project chains k voice)
    (before after : List Chain) :
    InStepWith project (before ++ chains ++ after) k voice := by
  refine h.imp_right fun ⟨hpad, filters, hshifts, hmem⟩ =>
    ⟨hpad, filters, hshifts, ?_⟩
  exact List.mem_append_left _ (List.mem_append_right _ hmem)

theorem InStepWith.ne_video {project : Project} {chains : List Chain} {k : Nat}
    {voice : Label} (h : InStepWith project chains k voice) (j : Nat) :
    voice ≠ .input j .video := by
  rcases h with ⟨_, rfl⟩ | ⟨hpad, _⟩
  · exact (Label.video_ne_audio j k).symm
  · rintro rfl
    cases hpad

theorem Sound.offset_adds {project : Project} (k : Nat)
    (hstem : isStem stem = true)
    (hoffset : ¬ Offset.Readable project.microphoneOffset → excuse) :
    Adds excuse (Sound.offset (.input k .audio)
        (Offset.given project.microphoneOffset) stem) fun voice new =>
      InStepWith project new k voice ∧ TrimsOnly (.input k .audio) new ∧
        Uncut new voice := by
  intro g
  refine Sound.offset_meets hoffset
    (fun halone => ⟨[], (List.append_nil _).symm, .inl ⟨halone, rfl⟩,
      fun _ _ => .nil, .nil⟩)
    fun filters hshifts => ?_
  refine Adds.join (P := fun voice new => InStepWith project new k voice ∧
    TrimsOnly (.input k .audio) new ∧ Uncut new voice) hstem (fun name => ?_) g
  have honly : TrimsOnly (.input k .audio)
      [⟨[.input k .audio], filters, [.pad name]⟩] := trimsOnly_singleton
  refine ⟨.inr ⟨rfl, filters, hshifts, List.mem_singleton.2 rfl⟩, honly,
    honly _ (Label.pad_ne_input name k .audio)⟩

theorem Sound.microphone_adds (k : Nat) {pieces : List Piece}
    {project : Project} (hne : pieces ≠ [])
    (hoffset : ¬ Offset.Readable project.microphoneOffset → excuse) :
    Adds excuse (Sound.microphone k (some pieces) project) fun _ new =>
      ∃ voice, InStepWith project new k voice ∧
        Treated (!Sound.isUntouched pieces (some project.duration)) new .audio
          voice pieces ∧
        ∀ other, other ≠ .input k .audio → other ≠ voice → Uncut new other := by
  refine .bind (Sound.offset_adds k (by decide) hoffset)
    fun voice shift ⟨hvoice, hshift, huncut⟩ => ?_
  refine .bind (Sound.timeline_adds (by decide) (by decide) _ hne)
    fun cut new ⟨hcut, honly⟩ => ?_
  refine .bind (chain_still (by decide) rfl) fun clean cleaned hclean => ?_
  refine (Sound.gain_still clean _ (by decide)).imp fun l more hmore => ?_
  refine ⟨voice, ?_, ?_, fun other hstream hother => ?_⟩
  · have := hvoice.append [] (new ++ (cleaned ++ more))
    rwa [List.nil_append] at this
  · refine (hcut.append_right ?_).append_left huncut
    exact (hclean voice).append (hmore voice)
  · refine (hshift other hstream).append ((honly other hother).append ?_)
    exact (hclean other).append (hmore other)

theorem Sound.mixed_still (screen microphone : Label) :
    Still excuse (Sound.mixed screen microphone) := by
  refine .bind (.fresh (P := fun _ new => new = []) (by decide) fun _ => rfl)
    fun trigger new hnew => ?_
  subst hnew
  refine .bind (.fresh (P := fun _ new => new = []) (by decide) fun _ => rfl)
    fun voice new hnew => ?_
  subst hnew
  refine .bind (.addChain (P := fun _ new => ∀ source, Uncut new source)
    (uncut_singleton rfl)) fun _ split hsplit => ?_
  refine .bind (.join (P := fun _ new => ∀ source, Uncut new source) (by decide)
    fun _ => uncut_singleton rfl) fun ducked duck hduck => ?_
  refine .join (by decide) fun name source => ?_
  exact (hsplit source).append
    ((hduck source).append (uncut_singleton rfl source))

/-- The palette is made of one copy of the picture, and the other is drawn with
it. -/
theorem Picture.animated_adds (video : Label) (rate height : Int) :
    Adds excuse (Picture.animated video rate height) fun l new =>
      ∃ first second palette, new =
        [⟨[video], [.frameRate rate, .fitImage height, .splitVideo],
          [first, second]⟩,
        ⟨[first], [.makePalette], [palette]⟩,
        ⟨[second, palette], [.usePalette], [l]⟩] := by
  refine .name (by decide) fun first => .name (by decide) fun second => ?_
  refine .bind (.addChain (P := fun _ new => new = [⟨[video],
    [.frameRate rate, .fitImage height, .splitVideo], [first, second]⟩]) rfl)
    fun _ new hnew => ?_
  subst hnew
  refine .bind (.join (P := fun palette new => new =
    [⟨[first], [.makePalette], [palette]⟩]) (by decide) fun _ => rfl)
    fun palette new hnew => ?_
  subst hnew
  exact .join (by decide) fun _ => ⟨first, second, palette, rfl⟩

end Stages

end Render

end Cutlist
