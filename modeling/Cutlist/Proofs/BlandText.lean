import Cutlist.Proofs.NumberText
import Cutlist.Proofs.Passing
import Cutlist.Proofs.Quoting

/-!
# Names and numbers have no meaning in a graph

Everything in the text of a graph is made of fixed words, numbers and names,
except for colours and captions. The reader gives a meaning to three characters
outside of quotes, and no number and no name has one of them: numbers are
written with few characters, and the name of a pad is a word of small letters
with a number. So a filter that draws nothing and writes no quotes is read as it
is, whatever the edits of a project are.
-/

namespace Cutlist

open FilterGraph Render Export

namespace FilterGraph

open Quoting

/-! ## Numbers and names -/

theorem bland_of_numeric {s : String} (h : Decimal.Numeric s.toList) :
    Bland s := by
  intro c hc
  have hnumeric := h c hc
  refine ⟨?_, ?_, ?_⟩
  all_goals
    rintro rfl
    cases hnumeric

/-- However numbers are written, what is not finite is a word. -/
theorem bland_of_finite (text : Binary64 → String)
    (hfinite : ∀ x, x.isFinite = true → Decimal.Numeric (text x).toList)
    (hinfinite : ∀ s, Bland (text (.infinite s))) (hnan : Bland (text .nan))
    (x : Binary64) : Bland (text x) := by
  cases x with
  | finite s q hq => exact bland_of_numeric (hfinite _ rfl)
  | infinite s => exact hinfinite s
  | nan => exact hnan

theorem bland_toFixed (x : Binary64) (places : Nat) :
    Bland (x.toFixed places) := by
  refine bland_of_finite (fun x => x.toFixed places)
    (fun x => Binary64.numeric_toFixed places) (fun s => ?_)
    (by decide : Bland "nan") x
  cases s
  · exact (by decide : Bland "inf")
  · exact (by decide : Bland "-inf")

theorem bland_toPlain : ∀ x : Binary64, Bland x.toPlain :=
  bland_of_finite _ (fun _ => Binary64.numeric_toPlain) (by decide) (by decide)

theorem bland_toShortest : ∀ x : Binary64, Bland x.toShortest :=
  bland_of_finite _ (fun _ => Binary64.numeric_toShortest) (by decide) (by decide)

theorem bland_toString (n : Int) : Bland (toString n) :=
  bland_of_numeric (Binary64.numeric_toString n)

theorem bland_toString_nat (n : Nat) : Bland (toString n) :=
  bland_toString (Int.ofNat n)

theorem bland_offset (o : Offset) : Bland o.toText := by
  cases o with
  | whole n => exact bland_toString n
  | real x => exact bland_toShortest x
  | flag b => cases b <;> decide

theorem toString_text (s : String) : toString s = s := rfl

theorem bland_placement (o : Placement) : Bland o.toText := by
  cases o with
  | corner position margin =>
      cases position
      all_goals
        dsimp only [Placement.toText]
        simp only [toString_text, bland_append, bland_toString, and_true,
          true_and]
        decide
  | fraction x y =>
      dsimp only [Placement.toText]
      simp only [toString_text, bland_append, bland_toFixed, and_true]
      decide

/-! ## Filters and labels -/

/-- Whether a filter writes quotes, or the text of somebody else. -/
def Filter.isQuoting : Filter → Bool
  | .crop .. | .drawBox .. | .drawText .. => true
  | _ => false

theorem Filter.bland_toText {f : Filter} (h : f.Authored)
    (hf : f.isQuoting = false) : Bland f.toText := by
  cases f with
  | verbatim => exact h.elim
  | crop => cases hf
  | drawBox => cases hf
  | drawText => cases hf
  | trim stream start stop =>
      cases stream <;> cases stop
      all_goals
        dsimp only [toText, Stream.mark]
        simp only [toString_text, bland_append, bland_toFixed, and_true]
        decide
  | restart stream => cases stream <;> decide
  | concat stream count =>
      cases stream
      all_goals
        dsimp only [toText]
        simp only [toString_text, bland_append, bland_toString_nat, and_true]
        decide
  | delay milliseconds =>
      obtain ⟨o, rfl⟩ := h
      dsimp only [toText]
      simp only [toString_text, bland_append, bland_offset, and_true]
      decide
  | overlay placement =>
      dsimp only [toText]
      simp only [toString_text, bland_append, bland_placement, and_true]
      decide
  | duck | mix | splitVideo | makePalette | usePalette => decide
  | _ =>
      dsimp only [toText]
      simp only [toString_text, bland_append, bland_toFixed, bland_toPlain,
        bland_toString, bland_toString_nat, and_true]
      decide

theorem bland_padName {stem : String} (h : isStem stem = true) (n : Nat) :
    Bland (padName stem n) := by
  refine bland_append.2 ⟨fun c hc => ?_, bland_toString_nat n⟩
  rcases letter_of_mem_stem h hc with rfl | hletter
  · decide
  · refine ⟨?_, ?_, ?_⟩
    all_goals
      rintro rfl
      exact absurd hletter (by decide)

theorem Label.bland_bracketed {l : Label} (h : Bland l.name) :
    Bland l.bracketed := by
  refine bland_append.2 ⟨bland_append.2 ⟨by decide, h⟩, by decide⟩

theorem Label.bland_input (index : Nat) (stream : Stream) :
    Bland (Label.input index stream).name := by
  cases stream
  all_goals
    dsimp only [name]
    simp only [toString_text, bland_append, bland_toString_nat, true_and]
    decide

theorem Label.bland_join {ls : List Label} (h : ∀ l ∈ ls, Bland l.name) :
    Bland (String.join (ls.map Label.bracketed)) := by
  induction ls with
  | nil => decide
  | cons l ls ih =>
      obtain ⟨hl, hls⟩ := List.forall_mem_cons.1 h
      rw [List.map_cons, String.join_cons]
      exact bland_append.2 ⟨bland_bracketed hl, ih hls⟩

/-- Every label of a graph under way is a stream of an input or was given out. -/
theorem Wired.bland_labels {ins : List Input} {surplus live : List Label}
    {g : FilterGraph} (h : Wired ins surplus live g) :
    ∀ c ∈ g.chains, ∀ l ∈ c.inputs ++ c.outputs, Bland l.name := by
  have hproduced : ∀ l ∈ g.produced, Bland l.name := fun l hl => by
    obtain ⟨stem, n, hstem, _, rfl⟩ := h.named l hl
    exact bland_padName hstem n
  intro c hc l hl
  rcases List.mem_append.1 hl with hread | hmade
  · cases l with
    | input index stream => exact Label.bland_input index stream
    | pad name =>
        refine hproduced _ ?_
        obtain ⟨k, hk, hget⟩ := List.getElem_of_mem hc
        have hbefore := h.inOrder k c (List.getElem?_eq_some_iff.2 ⟨hk, hget⟩)
          (.pad name) hread rfl
        obtain ⟨d, hd, hmem⟩ := List.mem_flatMap.1 hbefore
        exact List.mem_flatMap.2 ⟨d, List.mem_of_mem_take hd, hmem⟩
  · exact hproduced l (List.mem_flatMap.2 ⟨c, hc, hmade⟩)

end FilterGraph

end Cutlist
