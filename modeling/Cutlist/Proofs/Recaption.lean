import Cutlist.Export.Plan
import Cutlist.Proofs.SideBySide

/-!
# Another caption changes nothing else

Two projects that differ in one caption are built side by side. Up to the
annotation with that caption both builds do the same, there one chain gets
another caption, and behind it both go on alike.
-/

namespace Cutlist

open FilterGraph Render Export

namespace FilterGraph

/-! ## Graphs that differ in a caption -/

/-- Chains that are the same except that one caption is another. -/
inductive Recaptioned (s t : String) : List Chain → List Chain → Prop
  | same (chains : List Chain) : Recaptioned s t chains chains
  | one (front back : List Chain) (inputs outputs : List Label)
      (corner : Corner) (opacity : Binary64) (window : Window) :
      Recaptioned s t
        (front ++ ⟨inputs, [.drawText corner s opacity window], outputs⟩ :: back)
        (front ++ ⟨inputs, [.drawText corner t opacity window], outputs⟩ :: back)

/-- Graphs that are the same except that one caption is another. -/
structure Like (s t : String) (g g' : FilterGraph) : Prop where
  inputs : g.inputs = g'.inputs
  used : g.used = g'.used
  chains : Recaptioned s t g.chains g'.chains

section Rules

variable {s t : String}

theorem Recaptioned.append {xs ys : List Chain} (h : Recaptioned s t xs ys)
    (zs : List Chain) : Recaptioned s t (xs ++ zs) (ys ++ zs) := by
  cases h with
  | same => exact .same _
  | one front back inputs outputs corner opacity window =>
      rw [List.append_assoc, List.append_assoc]
      exact .one front (back ++ zs) inputs outputs corner opacity window

theorem Recaptioned.isEmpty {xs ys : List Chain} (h : Recaptioned s t xs ys) :
    xs.isEmpty = ys.isEmpty := by
  cases h with
  | same => rfl
  | one front => cases front <;> rfl

/-- Another caption is a likeness: behind it all chains are the same. -/
instance : Likeness (Recaptioned s t) :=
  ⟨.same, Recaptioned.append, Recaptioned.isEmpty⟩

theorem chain_twins (source : Label) (corner : Corner) (opacity : Binary64)
    (window : Window) (stem : String) :
    Twins (Recaptioned s t)
      (chain source [.drawText corner s opacity window] stem)
      (chain source [.drawText corner t opacity window] stem) := by
  refine .after fun output => .bind (fun g => ⟨rfl, rfl, rfl, ?_⟩) fun _ => .pure
  exact .one g.chains [] [source] [output] corner opacity window

end Rules

end FilterGraph

/-! ## One caption of a project -/

/-- A project in which one annotation, between others, has some caption. -/
def Project.captioned (p : Project) (before after : List Annotation)
    (a : Annotation) (caption : String) : Project :=
  { p with edits := { p.edits with
    annotations := before ++ { a with text := .text caption } :: after } }

/-- A caption that is not blank is what stands in the filter. -/
theorem Render.Picture.caption_eq {a : Annotation} {s : String}
    (htext : a.text = .text s) (hs : Text.trim s ≠ "") :
    Picture.caption a = pure (Text.trim s) := by
  have hne : s.isEmpty = false := by
    rw [String.isEmpty_eq_false_iff]
    rintro rfl
    exact hs rfl
  rw [Picture.caption, htext, Json.truthy, hne]
  rfl

section Stages

variable {p : Project} {before after : List Annotation} {a : Annotation}
variable {s t : String} {plan : Plan}

theorem Render.Picture.annotate_twins (hs : Text.trim s ≠ "")
    (ht : Text.trim t ≠ "") (duration : Binary64) (current : Label) :
    Twins (Recaptioned (Text.trim s) (Text.trim t))
      (Picture.annotate duration current { a with text := .text s })
      (Picture.annotate duration current { a with text := .text t }) := by
  unfold Picture.annotate
  rw [caption_eq rfl hs, caption_eq rfl ht]
  show Twins _ (if isBrief (window a duration) = true then _ else _)
    (if isBrief (window a duration) = true then _ else _)
  split
  · exact .refl _
  · refine .after fun color => .after fun drawn => ?_
    rw [pure_bind, pure_bind, if_neg (by simpa using hs),
      if_neg (by simpa using ht)]
    exact chain_twins drawn _ _ _ _

theorem Export.Graph.picture_twins (hs : Text.trim s ≠ "")
    (ht : Text.trim t ≠ "") (camera : Option Nat) :
    Twins (Recaptioned (Text.trim s) (Text.trim t))
      (Graph.picture (p.captioned before after a s) plan camera)
      (Graph.picture (p.captioned before after a t) plan camera) := by
  refine .after fun screen => .after fun covered => ?_
  unfold Picture.withAnnotations
  simp only [Project.captioned, List.foldlM_append, List.foldlM_cons]
  refine .after fun current => .bind (Picture.annotate_twins hs ht _ current)
    fun l => (Made.foldlM (Picture.annotate_made _)).alongside

theorem Export.Graph.build_twins (hs : Text.trim s ≠ "")
    (ht : Text.trim t ≠ "") (options : Options) :
    Twins (Recaptioned (Text.trim s) (Text.trim t))
      (Graph.build (p.captioned before after a s) options plan)
      (Graph.build (p.captioned before after a t) options plan) := by
  refine .after fun extras => ?_
  have hpicture : Twins (Recaptioned (Text.trim s) (Text.trim t))
      (Graph.picture (p.captioned before after a s) plan extras.camera)
      (Graph.picture (p.captioned before after a t) plan extras.camera) :=
    Graph.picture_twins hs ht _
  cases options.format.kind with
  | sound => exact .refl _
  | animation =>
      refine .bind hpicture fun video => ?_
      exact ((Picture.animated_made ..).bind fun _ => .pure).alongside
  | video =>
      refine .bind hpicture fun video => ?_
      refine .bind (Graph.sound_made extras.microphone).alongside fun audio => ?_
      exact .ifEmpty .pure (Made.chain.bind fun _ => .pure).alongside

theorem Export.Plan.captioned (screenHasAudio : Bool) :
    Plan.ofProject (p.captioned before after a s) screenHasAudio =
      Plan.ofProject (p.captioned before after a t) screenHasAudio := by
  have hdrawn (caption : String) : (p.captioned before after a
      caption).edits.annotations.isEmpty = false := by
    simp [Project.captioned]
  have hplain : isPlainStretch (p.captioned before after a s) =
      isPlainStretch (p.captioned before after a t) := by
    funext r
    rw [isPlainStretch, isPlainStretch, hdrawn, hdrawn]
    rfl
  rw [Plan.ofProject, hplain]
  rfl

/-- The build of a project in which one annotation has some caption. -/
def Export.Graph.buildCaptioned (p : Project) (options : Options)
    (screenHasAudio : Bool) (before after : List Annotation) (a : Annotation)
    (caption : String) : Except BuildError Graph.Outputs × FilterGraph :=
  let project := p.captioned before after a caption
  (Graph.build project options (Plan.ofProject project screenHasAudio)).run.run {}

/-- With another caption that is not blank a build comes to the same, with the
same chains outside of that caption. -/
theorem Export.Graph.buildCaptioned_like (hs : Text.trim s ≠ "")
    (ht : Text.trim t ≠ "") (options : Options) (screenHasAudio : Bool) :
    let build := Graph.buildCaptioned p options screenHasAudio before after a
    (build s).1 = (build t).1 ∧
      Like (Text.trim s) (Text.trim t) (build s).2 (build t).2 := by
  intro build
  have hbuild : build s = (Graph.build (p.captioned before after a s) options
      (Plan.ofProject (p.captioned before after a t) screenHasAudio)).run.run
        {} := by
    rw [← Plan.captioned (s := s)]
    rfl
  rw [hbuild]
  obtain ⟨hresult, hbeside⟩ := Graph.build_twins hs ht options {}
  exact ⟨hresult, hbeside.inputs, hbeside.used, hbeside.chains⟩

end Stages

end Cutlist
