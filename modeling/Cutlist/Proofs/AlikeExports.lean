import Cutlist.Export.Command
import Cutlist.Proofs.ListingOrder
import Cutlist.Proofs.SideBySide

/-!
# Exports of edits in another order

Edits listed in another order are compiled side by side. Both compilations cut
the same pieces up to the sign of a zero and decide the same about them, so every
stage does the same in both and comes to the same, be it a label or a refusal;
only where the ends of a piece are written may a zero have another sign. That is
what remains in the words of the command.
-/

namespace Cutlist

open FilterGraph Render Export

namespace FilterGraph

/-! ## Chains that are alike -/

/-- The same filter, but for the sign of a zero at the ends of a trim. -/
inductive Filter.Alike : Filter → Filter → Prop
  | same (f : Filter) : Alike f f
  | trim (stream : Stream) {start start' stop stop' : Binary64}
      (hstart : start.Alike start') (hstop : stop.Alike stop') :
      Alike (.trim stream start (some stop)) (.trim stream start' (some stop'))

theorem Filter.forall₂_alike_refl (filters : List Filter) :
    List.Forall₂ Filter.Alike filters filters :=
  List.forall₂_same.2 fun f _ => .same f

/-- The same chain, but for the signs of zeros in its filters. -/
structure Chain.Alike (c c' : Chain) : Prop where
  inputs : c.inputs = c'.inputs
  filters : List.Forall₂ Filter.Alike c.filters c'.filters
  outputs : c.outputs = c'.outputs

abbrev AlikeChains : List Chain → List Chain → Prop := List.Forall₂ Chain.Alike

instance : Likeness AlikeChains where
  refl _ := List.forall₂_same.2 fun _ _ => ⟨rfl, Filter.forall₂_alike_refl _, rfl⟩
  append h _ := List.rel_append h
    (List.forall₂_same.2 fun _ _ => ⟨rfl, Filter.forall₂_alike_refl _, rfl⟩)
  isEmpty h := by
    cases h with
    | nil => rfl
    | cons _ _ => rfl

theorem join_alongside {inputs : List Label} {filters filters' : List Filter}
    (h : List.Forall₂ Filter.Alike filters filters') (stem : String) :
    Alongside AlikeChains (join inputs filters stem)
      (join inputs filters' stem) := by
  refine Made.fresh.alongside.bind fun output => .bind (fun g g' hbeside => ?_)
    fun _ => .pure
  exact ⟨rfl, hbeside.inputs, hbeside.used,
    List.rel_append hbeside.chains (.cons ⟨rfl, h, rfl⟩ .nil)⟩

/-! ## Texts -/

theorem Filter.Alike.toText {f f' : Filter} (h : f.Alike f') :
    AlikeWord f.toText f'.toText := by
  have htext (stream : Stream) (start stop : Binary64) :
      (Filter.trim stream start (some stop)).toText =
        stream.mark ++ "trim=start" ++ ("=" ++ start.toFixed 6) ++ ":end" ++
          ("=" ++ stop.toFixed 6) := by
    change s!"{stream.mark}trim=start={start.toFixed 6}:end={stop.toFixed 6}" = _
    simp only [String.append_assoc]
    rfl
  cases h with
  | same => exact .refl _
  | trim stream hstart hstop =>
      rw [htext, htext]
      exact (((AlikeWord.refl _).append (.argument 6 hstart)).append (.refl _)).append
        (.argument 6 hstop)

theorem Chain.Alike.toText {c c' : Chain} (h : c.Alike c') :
    AlikeWord c.toText c'.toText := by
  rw [Chain.toText, Chain.toText, h.inputs, h.outputs]
  refine ((AlikeWord.refl _).append (.intercalate _ ?_)).append (.refl _)
  rw [List.forall₂_map_left_iff, List.forall₂_map_right_iff]
  exact h.filters.imp fun _ _ => Filter.Alike.toText

theorem toText_alike {g g' : FilterGraph} (h : AlikeChains g.chains g'.chains) :
    AlikeWord g.toText g'.toText := by
  refine AlikeWord.intercalate _ ?_
  rw [List.forall₂_map_left_iff, List.forall₂_map_right_iff]
  exact h.imp fun _ _ => Chain.Alike.toText

end FilterGraph

/-! ## Stages -/

section Stages

variable {xs ys : List Piece}

theorem Render.Picture.timeline_alongside (h : List.Forall₂ Piece.Alike xs ys)
    (source : Label) (size : Resolution) :
    Alongside AlikeChains (Picture.timeline source xs size)
      (Picture.timeline source ys size) := by
  refine (Alongside.mapM (fun q q' hq => ?_) h).bind fun parts =>
    Made.alongside ?_
  · refine join_alongside ?_ "vpiece"
    rw [Picture.pieceFilters, Picture.pieceFilters, hq.speed, hq.zoom]
    exact .cons (.trim _ hq.start hq.stop) (Filter.forall₂_alike_refl _)
  · split
    · exact .pure
    · exact .join

theorem Render.Sound.timeline_alongside (h : List.Forall₂ Piece.Alike xs ys)
    (source : Label) (stem : String) (duration : Option Binary64) :
    Alongside AlikeChains (Sound.timeline source xs stem duration)
      (Sound.timeline source ys stem duration) := by
  rw [Sound.timeline, Sound.timeline, Sound.isUntouched_alike h]
  split
  · exact .pure
  · refine (Alongside.mapM (fun q q' hq => ?_) h).bind fun parts =>
      Made.alongside ?_
    · refine join_alongside ?_ stem
      rw [Sound.pieceFilters, Sound.pieceFilters, hq.speed]
      exact .cons (.trim _ hq.start hq.stop) (Filter.forall₂_alike_refl _)
    · split
      · exact .pure
      · exact .join

/-- Sound that follows a timeline is alike along timelines that are alike. -/
theorem Render.Sound.output_alongside {pieces pieces' : Option (List Piece)}
    (h : Option.Rel (List.Forall₂ Piece.Alike) pieces pieces')
    (sources : AudioSources) (project : Project) (index : Nat) :
    Alongside AlikeChains (Sound.output sources pieces project index)
      (Sound.output sources pieces' project index) := by
  have hfollow (source : Label) (stem : String) : Alongside AlikeChains
      (Sound.follow source pieces project stem)
      (Sound.follow source pieces' project stem) := by
    cases h with
    | none => exact .pure
    | some h => exact timeline_alongside h source stem _
  have hscreen : Alongside AlikeChains (Sound.screen pieces project)
      (Sound.screen pieces' project) :=
    (hfollow _ _).bind fun _ => (Sound.gain_made ..).alongside
  have hmicrophone : Alongside AlikeChains (Sound.microphone index pieces project)
      (Sound.microphone index pieces' project) :=
    (Sound.offset_made ..).alongside.bind fun _ => (hfollow _ _).bind
      fun _ => (Made.chain.bind fun _ => Sound.gain_made ..).alongside
  rw [Sound.output_eq, Sound.output_eq]
  cases sources with
  | none => exact .pure
  | screenOnly => exact hscreen.map
  | microphoneOnly => exact hmicrophone.map
  | both =>
      exact hscreen.bind fun _ => hmicrophone.bind
        fun _ => (Made.map (Sound.mixed_made ..)).alongside

namespace Export.Graph

variable {project : Project} {plan : Plan}
variable (h : List.Forall₂ Piece.Alike xs plan.pieces)

include h

theorem picture_alongside (camera : Option Nat) :
    Alongside AlikeChains (picture project (plan.withPieces xs) camera)
      (picture project plan camera) := by
  have hcut : Alongside AlikeChains (cut project (plan.withPieces xs))
      (cut project plan) := by
    show Alongside _ (if !plan.fast && plan.edited then _ else _)
      (if !plan.fast && plan.edited then _ else _)
    split
    · exact Picture.timeline_alongside h _ _
    · exact .pure
  exact hcut.bind fun base => ((overlaid_made base camera).bind
    fun _ => .foldlM (Picture.annotate_made _)).alongside

theorem sound_alongside (microphone : Option Nat) :
    Alongside AlikeChains (sound project (plan.withPieces xs) microphone)
      (sound project plan microphone) := by
  refine Sound.output_alongside ?_ _ project _
  show Option.Rel _ (if plan.fast then none else some xs)
    (if plan.fast then none else some plan.pieces)
  split
  · exact .none
  · exact .some h

theorem build_alike (options : Options) :
    Twins AlikeChains (build project options (plan.withPieces xs))
      (build project options plan) := by
  refine .after fun extras => Alongside.twins ?_
  cases options.format.kind with
  | sound => exact (sound_alongside h _).bind fun _ => .pure
  | animation =>
      refine (picture_alongside h _).bind fun video => ?_
      exact ((Picture.animated_made ..).bind fun _ => .pure).alongside
  | video =>
      refine (picture_alongside h _).bind fun video => ?_
      refine (sound_alongside h _).bind fun audio => ?_
      exact .ifEmpty .pure (Made.chain.bind fun _ => .pure).alongside

end Export.Graph

end Stages

/-! ## Commands -/

namespace Export.Command

/-- Two compilations that both refuse a project for the same reason, or come to
words that are alike. -/
inductive AlikeArgs : Except BuildError (List String) →
    Except BuildError (List String) → Prop
  | ok {words words' : List String} (h : List.Forall₂ AlikeWord words words') :
      AlikeArgs (.ok words) (.ok words')
  | error (e : BuildError) : AlikeArgs (.error e) (.error e)

theorem bodyArgs_alike {g g' : FilterGraph} (h : AlikeChains g.chains g'.chains)
    (outputs : Graph.Outputs) (options : Options) (encoder : Encoder) :
    List.Forall₂ AlikeWord (bodyArgs g outputs options encoder)
      (bodyArgs g' outputs options encoder) := by
  have hempty : g.isEmpty = g'.isEmpty := Likeness.isEmpty h
  have hgraph : List.Forall₂ AlikeWord (graphArgs g) (graphArgs g') :=
    .cons (.refl _) (.cons (toText_alike h) .nil)
  have haudio (isVideo : Bool) : List.Forall₂ AlikeWord
      (audioArgs g outputs isVideo) (audioArgs g' outputs isVideo) := by
    rw [audioArgs, audioArgs, hempty]
    exact AlikeWord.forall₂_refl _
  rw [bodyArgs, bodyArgs, hempty]
  cases options.format.kind with
  | sound =>
      refine List.rel_append (List.rel_append (AlikeWord.forall₂_refl _) ?_)
        (haudio false)
      split
      · exact .nil
      · exact hgraph
  | animation =>
      exact List.rel_append (List.rel_append hgraph (AlikeWord.forall₂_refl _))
        (AlikeWord.forall₂_refl _)
  | video =>
      refine List.rel_append (List.rel_append (AlikeWord.forall₂_refl _) ?_)
        (haudio true)
      rw [videoArgs, videoArgs]
      split
      · exact List.rel_append hgraph (AlikeWord.forall₂_refl _)
      · exact AlikeWord.forall₂_refl _

theorem args_alike {project : Project} {plan : Plan} {pieces : List Piece}
    (h : List.Forall₂ Piece.Alike pieces plan.pieces) (options : Options)
    (platform : Platform) (output : String) :
    AlikeArgs (args project options platform (plan.withPieces pieces) output)
      (args project options platform plan output) := by
  have htwins : Twins AlikeChains
      (Graph.build project options (plan.withPieces pieces))
      (Graph.build project options plan) := Graph.build_alike h options
  obtain ⟨hresult, hbeside⟩ := htwins {}
  rw [args, args]
  revert hresult hbeside
  cases (Graph.build project options (plan.withPieces pieces)).run.run {} with
  | mk result g =>
      cases (Graph.build project options plan).run.run {} with
      | mk result' g' =>
          rintro rfl hbeside
          cases result with
          | error e => exact .error e
          | ok outputs =>
              have hinputs : g.inputs = g'.inputs := hbeside.inputs
              refine .ok (List.rel_append (List.rel_append ?_
                (bodyArgs_alike hbeside.chains ..)) (AlikeWord.forall₂_refl _))
              rw [hinputs]
              exact AlikeWord.forall₂_refl _

/-- Edits that decide where a recording is cut are only looked at through the
plan. -/
theorem args_withEdits {p : Project} {e : Edits} (h : p.edits.Relisted e)
    (options : Options) (platform : Platform) (plan : Plan) (output : String) :
    args (p.withEdits e) options platform plan output =
      args p options platform plan output := by
  have hbuild : Graph.build (p.withEdits e) options plan =
      Graph.build p options plan := by
    obtain ⟨segments, zoom, speed, annotations, overlay, mix⟩ := e
    obtain ⟨-, -, -, rfl, rfl, rfl⟩ := h
    rfl
  rw [args, hbuild, args]

end Export.Command

/-- Where no two enabled segments start together, edits listed in another order
are exported alike: the pieces are the same up to the sign of a zero, an export is
fast or not just as before, and so are the words of the command. -/
theorem Project.relisted_alike (p : Project) (h : p.HasFiniteTimes)
    (hstarts : p.enabledRanges.Pairwise fun a b => a.start.value ≠ b.start.value)
    (e : Edits) (he : p.edits.Relisted e) (screenHasAudio : Bool) :
    let plan := Plan.ofProject p screenHasAudio
    let plan' := Plan.ofProject (p.withEdits e) screenHasAudio
    List.Forall₂ Piece.Alike plan'.pieces plan.pieces ∧ plan'.fast = plan.fast ∧
      ∀ options platform output, Command.AlikeArgs
        (Command.args (p.withEdits e) options platform plan' output)
        (Command.args p options platform plan output) := by
  intro plan plan'
  have hpieces : List.Forall₂ Piece.Alike (p.withEdits e).pieces plan.pieces :=
    pieces_relisted h he hstarts
  have hplan : plan' = plan.withPieces (p.withEdits e).pieces :=
    Plan.ofProject_relisted h he hstarts screenHasAudio
  refine ⟨hpieces, ?_, fun options platform output => ?_⟩
  · rw [hplan]
    rfl
  · rw [hplan, Command.args_withEdits he]
    exact Command.args_alike hpieces options platform output

/-- Two stretches of a recording, the later one first, each of them in part at
another speed and enlarged, and a zoom across both that does not enlarge. -/
def listed : Project := (Project.screenOnly 10 [] []).withEdits
  { segments := [⟨.null, 6, 9, true⟩, ⟨.null, 1, 4, true⟩]
    zoom := [⟨.null, 1, 9, 1, 0, 0⟩, ⟨.null, 7, 8, 2, 0, 0⟩,
      ⟨.null, 2, 3, 1.5, 0, 0⟩]
    speed := [⟨.null, 7, 9, 0.5⟩, ⟨.null, 1, 3, 2⟩]
    annotations := []
    overlay := .standard
    mix := .standard }

/-- The same edits the other way round, and a disabled segment. -/
def relisted : Edits :=
  { listed.edits with
    segments := ⟨.null, 4, 6, false⟩ :: listed.edits.segments.reverse
    zoom := listed.edits.zoom.reverse
    speed := listed.edits.speed.reverse }

theorem Project.relisted_alike_reversed : listed.HasFiniteTimes ∧
    (listed.enabledRanges.Pairwise fun a b => a.start.value ≠ b.start.value) ∧
    listed.edits.Relisted relisted ∧
    List.Forall₂ Piece.Alike (listed.withEdits relisted).pieces listed.pieces ∧
    Command.AlikeArgs
      (Command.args (listed.withEdits relisted) {} .other
        (Plan.ofProject (listed.withEdits relisted) false) "out.mp4")
      (Command.args listed {} .other (Plan.ofProject listed false)
        "out.mp4") := by
  have hfin : listed.HasFiniteTimes := by
    refine ⟨by decide +kernel, ?_, ?_, ?_⟩
    · simp only [listed, withEdits, List.forall_mem_cons]
      decide +kernel
    · simp only [listed, withEdits, List.forall_mem_cons]
      decide +kernel
    · simp only [listed, withEdits, List.forall_mem_cons]
      decide +kernel
  have hstarts : listed.enabledRanges.Pairwise
      fun a b => a.start.value ≠ b.start.value := by decide +kernel
  have hspeed : listed.edits.speed.Pairwise
      fun a b => a.range.Apart b.range := by decide +kernel
  have hzoom : (listed.edits.zoom.filter fun z => decide (1 < z.scale)).Pairwise
      fun a b => a.range.Apart b.range := by decide +kernel
  have he : listed.edits.Relisted relisted :=
    { segments := (List.reverse_perm _).filter _
      speed := .inr ⟨List.reverse_perm _, hspeed.imp Range.Apart.disjoint⟩
      zoom := .inr ⟨List.reverse_perm _, hzoom.imp Range.Apart.disjoint⟩
      annotations := rfl
      overlay := rfl
      mix := rfl }
  obtain ⟨hpieces, _, hargs⟩ :=
    relisted_alike listed hfin hstarts relisted he false
  exact ⟨hfin, hstarts, he, hpieces, hargs {} .other "out.mp4"⟩

end Cutlist
