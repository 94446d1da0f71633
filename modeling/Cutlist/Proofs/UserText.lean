import Cutlist.Proofs.LooseEnds
import Cutlist.Proofs.MarkedText
import Cutlist.Proofs.Recaption

/-!
# What a text by the user does to a graph

Captions and colours are the only texts in a graph that a user writes. Whatever
a caption is, the chains that are added are the same outside of it. But how they
are read depends on it: a single quote in a caption ends the quoted span that
the caption stands in, since a backslash means nothing there, and from then on
arguments are taken for text and text for arguments. In a colour, a quote or a
semicolon has the meaning that it has anywhere in a graph. Where none of these
is drawn, a graph is read as it was written, and only there.
-/

namespace Cutlist

open FilterGraph Render Export

/-- A graph is read as it was written exactly when everything that is drawn is
inert, and of two captions that are not blank each makes the same chains outside
of it. -/
theorem Export.Graph.build_userText (p : Project) (options : Options)
    (screenHasAudio : Bool) :
    Meets (¬ p.Writable options.format.kind)
      (build p options (Plan.ofProject p screenHasAudio)) {} (fun _ g =>
        g.markedText.map Quoting.Mark.char = g.toText.toList ∧
        (g.Intact ↔ ∀ f ∈ p.drawings options.format.kind, f.Inert)) ∧
    ∀ before after a s t, Text.trim s ≠ "" → Text.trim t ≠ "" →
      let build := buildCaptioned p options screenHasAudio before after a
      (build s).1 = (build t).1 ∧
        Like (Text.trim s) (Text.trim t) (build s).2 (build t).2 := by
  refine ⟨?_, fun before after a s t hs ht =>
    buildCaptioned_like hs ht options screenHasAudio⟩
  refine ((build_laid p options screenHasAudio).and ((build_account p options
    (Plan.ofProject p screenHasAudio) p.pieces_ne_nil).and (build_inputs p
      options (Plan.ofProject p screenHasAudio)))).imp fun out g
    ⟨⟨shown, heard, last, video, hlaid⟩, ⟨_, _, hwired, _⟩, _, hends⟩ =>
      ⟨map_markedText g, ?_⟩
  rw [← hlaid.drawn_eq]
  refine intact_iff (fun c hc => ⟨fun f hf => ?_, hwired.bland_labels c hc⟩) hends
  obtain ⟨stream, hon⟩ := hlaid.on c hc
  exact (hon.filters f hf).2

theorem Render.Picture.inert_drawings_iff {duration : Binary64} {a : Annotation}
    (hshown : isBrief (window a duration) = false) :
    (∀ f ∈ drawings duration a, f.Inert) ↔
      ('\'' ∉ Quoting.bare (ink a).toList ∧
        (Quoting.bare (ink a).toList).count ';' = 0) ∧
      '\'' ∉ (words a).toList := by
  have hcaption : (∀ f ∈ captions duration a, f.Inert) ↔
      '\'' ∉ (words a).toList := by
    rw [captions]
    split
    · next hempty =>
        rw [String.isEmpty_iff.1 hempty]
        exact iff_of_true (List.forall_mem_nil _) List.not_mem_nil
    · rw [List.forall_mem_singleton]
      exact and_iff_left rfl
  rw [drawings, hshown, if_neg Bool.false_ne_true, List.forall_mem_cons, hcaption]
  exact Iff.rfl

/-- A recording on which a red rectangle with a caption is drawn. -/
def labelled (caption : String) : Project :=
  let plain := Project.screenOnly 10 [] []
  { plain with edits := { plain.edits with annotations :=
    [⟨.null, 6, 8, 0.1, 0.1, 0.2, 0.2, .text "red", 1, 4, .text caption⟩] } }

/-- A caption with the text of another chain in it, and one with a backslash at
its end, are captions like others. -/
theorem Export.Graph.build_userText_chain :
    (labelled "a;[0:v]null").Writable .video ∧
    Meets False (build (labelled "a;[0:v]null") {}
      (Plan.ofProject (labelled "a;[0:v]null") false)) {} (fun _ g => g.Intact) ∧
    Text.trim "a;[0:v]null" ≠ "" ∧ Text.trim "b\\" ≠ "" ∧
    Like (Text.trim "a;[0:v]null") (Text.trim "b\\")
      ((build (labelled "a;[0:v]null") {}
        (Plan.ofProject (labelled "a;[0:v]null") false)).run.run {}).2
      ((build (labelled "b\\") {}
        (Plan.ofProject (labelled "b\\") false)).run.run {}).2 := by
  have hwritable : (labelled "a;[0:v]null").Writable .video := by
    refine ⟨fun _ h => absurd h (by decide), fun _ h => absurd h (by decide),
      fun _ => ?_, fun _ => ?_⟩
    · exact List.forall_mem_singleton.2 fun _ => rfl
    · exact List.forall_mem_singleton.2 fun _ _ => rfl
  have hinert : ∀ f ∈ (labelled "a;[0:v]null").drawings .video, f.Inert := by
    rw [Project.drawings, if_neg (by decide)]
    intro f hf
    obtain ⟨a, ha, hmem⟩ := List.mem_flatMap.1 hf
    obtain rfl := List.mem_singleton.1 ha
    exact (Picture.inert_drawings_iff (by decide +kernel)).2
      (by decide +kernel) f hmem
  obtain ⟨hread, hlike⟩ := build_userText (labelled "a;[0:v]null") {} false
  have hs : Text.trim "a;[0:v]null" ≠ "" := by decide
  have ht : Text.trim "b\\" ≠ "" := by decide
  refine ⟨hwritable, ?_, hs, ht, ?_⟩
  · exact (hread.imp fun _ g h => h.2.2 hinert).excused (absurd hwritable)
  · exact (hlike [] [] ⟨.null, 6, 8, 0.1, 0.1, 0.2, 0.2, .text "red", 1, 4, .null⟩
      _ _ hs ht).2

/-- A recording with a rectangle whose caption has an apostrophe. -/
def apostrophe : Project := labelled "it's"

theorem plan_apostrophe : Plan.ofProject apostrophe false =
    ⟨.text "screen.mp4", none, none, false, [⟨0, 10⟩], [⟨0, 10, 1, none⟩], false,
      false⟩ := by
  have hranges : apostrophe.ranges = [⟨0, 10⟩] :=
    Range.sort_of_sorted (by decide +kernel) (List.pairwise_singleton _ _)
  have hpieces : apostrophe.pieces = [⟨0, 10, 1, none⟩] := by
    rw [Project.pieces, Project.cutPieces, hranges,
      Edits.piecesOf_of_sorted (by decide +kernel)]
    decide +kernel
  have hedited : Timeline.isEdited [⟨0, 10, 1, none⟩] apostrophe.whole =
      false := by
    decide +kernel
  have hplain : isPlainStretch apostrophe ⟨0, 10⟩ = false := by
    rw [isPlainStretch, hpieces]
    decide +kernel
  rw [Plan.ofProject, hranges, hpieces, hedited, onlyRange?, Option.any_some,
    hplain]
  rfl

/-- The apostrophe ends the span that the caption stands in, and the next quote
opens one that swallows what follows: of the three chains, a reader finds two. -/
theorem Export.Graph.build_apostrophe :
    Meets False (build apostrophe {} (Plan.ofProject apostrophe false)) {}
      fun _ g => ¬ g.Intact ∧ g.chains.length = 3 ∧ g.chainsRead = 2 ∧
        (Quoting.read {} g.markedText).isAstray = true := by
  have hread : Meets False (build apostrophe {} (Plan.ofProject apostrophe false))
      {} fun _ g => g.chains.length = 3 ∧ g.chainsRead = 2 ∧
        (Quoting.read {} g.markedText).isAstray = true := by
    rw [plan_apostrophe]
    decide +kernel
  refine hread.imp fun _ g ⟨hadded, hfound, hastray⟩ =>
    ⟨fun hintact => ?_, hadded, hfound, hastray⟩
  have hspans := hintact.spans
  rw [hastray] at hspans
  cases hspans

end Cutlist
