import Cutlist.Export.Graph
import Cutlist.Proofs.Building

/-!
# Actions only add

An action that builds a part of a graph leaves alone what is there: it adds
chains behind the others, each of which ends in a pad, and registers no input.
That is true of every stage of an export whatever the edits of a project are,
and also of one that fails, so no stage needs an excuse for it.
-/

namespace Cutlist

open FilterGraph Render

namespace FilterGraph

/-- A graph with more chains behind those of another, each ending in a pad. -/
structure Grows (g g' : FilterGraph) : Prop where
  inputs : g'.inputs = g.inputs
  chains : ∃ more, g'.chains = g.chains ++ more ∧ ∀ c ∈ more, c.outputs ≠ []

namespace Grows

theorem refl (g : FilterGraph) : Grows g g :=
  ⟨rfl, [], (List.append_nil _).symm, fun _ h => nomatch h⟩

theorem trans {g₁ g₂ g₃ : FilterGraph} (h : Grows g₁ g₂) (h' : Grows g₂ g₃) :
    Grows g₁ g₃ := by
  obtain ⟨more, hmore, hends⟩ := h.chains
  obtain ⟨rest, hrest, hends'⟩ := h'.chains
  refine ⟨h'.inputs.trans h.inputs, more ++ rest, ?_,
    List.forall_mem_append.2 ⟨hends, hends'⟩⟩
  rw [hrest, hmore, List.append_assoc]

end Grows

/-- An action only adds chains, and each of them ends in a pad. -/
structure Keeps {α : Type} (m : Build α) : Prop where
  grows : ∀ g, Meets True m g fun _ g' => Grows g g'

theorem Keeps.bind {α β : Type} {m : Build α} {f : α → Build β} (hm : Keeps m)
    (hf : ∀ a, Keeps (f a)) : Keeps (m >>= f) :=
  ⟨fun g => .bind (hm.grows g) fun a g' h =>
    ((hf a).grows g').imp fun _ _ h' => h.trans h'⟩

theorem Keeps.get : Keeps (MonadState.get : Build FilterGraph) :=
  ⟨fun g => .get (.refl g)⟩

/-- An action that is put together of those that name pads and add chains. -/
inductive Made : {α : Type} → Build α → Prop
  | pure {α : Type} {a : α} : Made (Pure.pure a)
  | throw {α : Type} {e : BuildError} : Made (MonadExcept.throw e : Build α)
  | bind {α β : Type} {m : Build α} {f : α → Build β} (hm : Made m)
      (hf : ∀ a, Made (f a)) : Made (m >>= f)
  | fresh {stem : String} : Made (FilterGraph.fresh stem)
  | addChain {inputs outputs : List Label} {filters : List Filter}
      (h : outputs ≠ []) : Made (FilterGraph.addChain inputs filters outputs)

namespace Made

variable {α β : Type}

theorem map {m : Build α} {f : α → β} (hm : Made m) : Made (f <$> m) := by
  rw [map_eq_pure_bind]
  exact .bind hm fun _ => .pure

theorem join {inputs : List Label} {filters : List Filter} {stem : String} :
    Made (FilterGraph.join inputs filters stem) :=
  .bind .fresh fun _ => .bind (.addChain (List.cons_ne_nil _ _)) fun _ => .pure

theorem chain {source : Label} {filters : List Filter} {stem : String} :
    Made (FilterGraph.chain source filters stem) := .join

theorem mapM {f : α → Build β} (hf : ∀ a, Made (f a)) {xs : List α} :
    Made (xs.mapM f) := by
  induction xs with
  | nil => exact .pure
  | cons x xs ih =>
      rw [List.mapM_cons]
      exact .bind (hf x) fun _ => .bind ih fun _ => .pure

theorem foldlM {f : β → α → Build β} (hf : ∀ b a, Made (f b a)) {b : β}
    {xs : List α} : Made (xs.foldlM f b) := by
  induction xs generalizing b with
  | nil => exact .pure
  | cons x xs ih =>
      rw [List.foldlM_cons]
      exact .bind (hf b x) fun _ => ih

theorem keeps {m : Build α} (h : Made m) : Keeps m := by
  induction h with
  | pure => exact ⟨fun g => .pure (.refl g)⟩
  | throw => exact ⟨fun _ => .throw trivial⟩
  | bind _ _ hm hf => exact hm.bind hf
  | fresh =>
      rw [FilterGraph.fresh]
      split
      · exact ⟨fun g => ⟨rfl, (Grows.refl g).chains⟩⟩
      · exact ⟨fun _ => .throw trivial⟩
  | addChain h =>
      exact ⟨fun _ => .addChain ⟨rfl, _, rfl, List.forall_mem_singleton.2 h⟩⟩

end Made

end FilterGraph

/-! ## Every stage -/

namespace Render

theorem Offset.ofJson_made (v : Json) : Made (Offset.ofJson v) := by
  rw [Offset.ofJson]
  split
  · exact .pure
  · exact .throw

theorem Offset.seconds_made (o : Offset) : Made o.seconds := by
  rw [Offset.seconds]
  split
  · exact .pure
  · exact .throw

theorem Picture.timeline_made (source : Label) (pieces : List Piece)
    (size : Resolution) : Made (Picture.timeline source pieces size) := by
  refine .bind (.mapM fun q => .chain) fun parts => ?_
  split
  · exact .pure
  · exact .join

theorem Picture.syncFilters_made (o : Offset) :
    Made (Picture.syncFilters o) := by
  rw [Picture.syncFilters]
  split
  · exact .bind (Offset.seconds_made o) fun _ => .pure
  · split
    · exact .bind (Offset.seconds_made o) fun _ => .pure
    · exact .pure

theorem Picture.withCamera_made (base camera : Label) (o : CameraOverlay)
    (offset : Json) : Made (Picture.withCamera base camera o offset) :=
  .bind (.bind (Offset.ofJson_made offset) Picture.syncFilters_made)
    fun _ => .bind .chain fun _ => .join

theorem Picture.annotate_made (duration : Binary64) (current : Label)
    (a : Annotation) : Made (Picture.annotate duration current a) := by
  rw [Picture.annotate]
  split
  · exact .pure
  · refine .bind ?_ fun color => .bind .chain fun drawn => .bind ?_
      fun caption => ?_
    · rw [Picture.color]
      split
      · exact .pure
      · exact .throw
    · rw [Picture.caption]
      split
      · split
        · exact .pure
        · exact .throw
      · exact .pure
    · split
      · exact .pure
      · exact .chain

theorem Picture.animated_made (source : Label) (rate height : Int) :
    Made (Picture.animated source rate height) :=
  .bind .fresh fun _ => .bind .fresh fun _ =>
    .bind (.addChain (List.cons_ne_nil _ _)) fun _ => .bind .chain
      fun _ => .join

theorem Sound.follow_made (source : Label) (pieces : Option (List Piece))
    (project : Project) (stem : String) :
    Made (Sound.follow source pieces project stem) := by
  unfold Sound.follow
  split
  · rw [Sound.timeline]
    split
    · exact .pure
    · refine .bind (.mapM fun q => .chain) fun parts => ?_
      split
      · exact .pure
      · exact .join
  · exact .pure

theorem Sound.gain_made (source : Label) (volume : Binary64) (stem : String) :
    Made (Sound.gain source volume stem) := by
  rw [Sound.gain]
  split
  · exact .pure
  · exact .chain

theorem Sound.offset_made (source : Label) (value : Json) (stem : String) :
    Made (Sound.offset source value stem) := by
  refine .bind (Offset.ofJson_made value) fun o => ?_
  split
  · exact .pure
  · split
    · exact .chain
    · exact .bind (Offset.seconds_made o) fun _ => .chain

theorem Sound.screen_made (pieces : Option (List Piece)) (project : Project) :
    Made (Sound.screen pieces project) :=
  .bind (Sound.follow_made ..) fun _ => Sound.gain_made ..

theorem Sound.microphone_made (index : Nat) (pieces : Option (List Piece))
    (project : Project) : Made (Sound.microphone index pieces project) :=
  .bind (Sound.offset_made ..) fun _ => .bind (Sound.follow_made ..)
    fun _ => .bind .chain fun _ => Sound.gain_made ..

theorem Sound.mixed_made (screen microphone : Label) :
    Made (Sound.mixed screen microphone) :=
  .bind .fresh fun _ => .bind .fresh fun _ =>
    .bind (.addChain (List.cons_ne_nil _ _)) fun _ => .bind .join
      fun _ => .join

theorem Sound.output_made (sources : AudioSources)
    (pieces : Option (List Piece)) (project : Project) (index : Nat) :
    Made (Sound.output sources pieces project index) := by
  rw [Sound.output_eq]
  cases sources with
  | none => exact .pure
  | screenOnly => exact .map (Sound.screen_made ..)
  | microphoneOnly => exact .map (Sound.microphone_made ..)
  | both =>
      exact .bind (Sound.screen_made ..) fun _ =>
        .bind (Sound.microphone_made ..) fun _ => .map (Sound.mixed_made ..)

end Render

namespace Export.Graph

variable {project : Project} {plan : Plan}

theorem overlaid_made (base : Label) (camera : Option Nat) :
    Made (overlaid project base camera) := by
  cases camera with
  | none => exact .pure
  | some k => exact Picture.withCamera_made ..

theorem picture_made (camera : Option Nat) :
    Made (picture project plan camera) := by
  have hcut : Made (cut project plan) := by
    rw [cut]
    split
    · exact Picture.timeline_made ..
    · exact .pure
  exact hcut.bind fun base => (overlaid_made base camera).bind fun _ =>
    .foldlM (Picture.annotate_made _)

theorem sound_made (microphone : Option Nat) :
    Made (sound project plan microphone) := Sound.output_made ..

end Export.Graph

end Cutlist
