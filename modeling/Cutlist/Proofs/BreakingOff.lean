import Cutlist.Run
import Mathlib.Data.List.Basic

/-!
# What breaks a run off

A run breaks off at a block with a number out of range, or because what listens to
the progress breaks it off. Both are told from the lines that are read alone:
whatever is asked of the process in the meantime, it is the blocks that decide
whether reading goes on to its end.
-/

namespace Cutlist

namespace Run

/-! ## Blame -/

/-- The line that is read in a step. -/
def Step.line? : Step → Option String
  | .line text => some text
  | _ => none

/-- Fields cut into blocks, of which the first was begun before. -/
def cutBlocks : Fields → List (String × String) → List Fields
  | _, [] => []
  | begun, field :: fields =>
      if field.1 = "progress" then (field :: begun) :: cutBlocks [] fields
      else cutBlocks (field :: begun) fields

/-- The fields that are read in some steps. -/
def fieldsOf (steps : List Step) : List (String × String) :=
  (steps.filterMap Step.line?).filterMap field?

theorem fieldsOf_line_none {text : String} (h : field? text = none)
    (steps : List Step) : fieldsOf (.line text :: steps) = fieldsOf steps :=
  List.filterMap_cons_none h

theorem fieldsOf_line_some {text : String} {field : String × String}
    (h : field? text = some field) (steps : List Step) :
    fieldsOf (.line text :: steps) = field :: fieldsOf steps :=
  List.filterMap_cons_some h

/-- The blocks that are read in some steps. -/
def blocks (steps : List Step) : List Fields := cutBlocks [] (fieldsOf steps)

/-- What blocks report, one after another. -/
def Job.reports (job : Job) (bs : List Fields) : List Progress :=
  bs.filterMap fun b => (Progress.ofFields b job.total).toOption

/-- Why a run may break off at one of some blocks, when something was reported
before. -/
inductive Blames (job : Job) (heard : List Progress) (bs : List Fields) :
    Break → Prop
  | tooLarge {b : Fields} (hb : b ∈ bs)
      (h : Progress.ofFields b job.total = .error .tooLarge) :
      Blames job heard bs .tooLarge
  | listener {listener : Listener} {told : List Progress}
      (hlistener : job.listener = some listener) (hne : told ≠ [])
      (htold : told <+: job.reports bs) (h : listener (heard ++ told) = true) :
      Blames job heard bs .listener

section Blocks

variable {job : Job} {heard : List Progress} {b : Fields} {bs : List Fields}
variable {why : Break} {p : Progress}

theorem not_blames_nil : ¬ Blames job heard [] why := by
  rintro (⟨hb, _⟩ | ⟨_, hne, htold, _⟩)
  · cases hb
  · exact hne (List.prefix_nil.1 htold)

theorem reports_cons_of_error {fault : BlockFault}
    (h : Progress.ofFields b job.total = .error fault) :
    job.reports (b :: bs) = job.reports bs := by
  rw [Job.reports, List.filterMap_cons, h]
  rfl

theorem reports_cons_of_ok (h : Progress.ofFields b job.total = .ok p) :
    job.reports (b :: bs) = p :: job.reports bs := by
  rw [Job.reports, List.filterMap_cons, h]
  rfl

/-- A block that makes no sense changes nothing. -/
theorem blames_cons_of_unusable
    (h : Progress.ofFields b job.total = .error .unusable) :
    Blames job heard (b :: bs) why ↔ Blames job heard bs why := by
  constructor
  · rintro (⟨hb, hlarge⟩ | ⟨hlistener, hne, htold, hraised⟩)
    · rcases List.mem_cons.1 hb with rfl | hb
      · cases h.symm.trans hlarge
      · exact .tooLarge hb hlarge
    · rw [reports_cons_of_error h] at htold
      exact .listener hlistener hne htold hraised
  · rintro (⟨hb, hlarge⟩ | ⟨hlistener, hne, htold, hraised⟩)
    · exact .tooLarge (List.mem_cons_of_mem _ hb) hlarge
    · refine .listener hlistener hne ?_ hraised
      rwa [reports_cons_of_error h]

/-- A report that nobody hears changes nothing. -/
theorem blames_cons_of_unheard (h : Progress.ofFields b job.total = .ok p)
    (hnone : job.listener = none) :
    Blames job heard (b :: bs) why ↔ Blames job heard bs why := by
  constructor
  · rintro (⟨hb, hlarge⟩ | ⟨hlistener, _, _, _⟩)
    · rcases List.mem_cons.1 hb with rfl | hb
      · cases h.symm.trans hlarge
      · exact .tooLarge hb hlarge
    · cases hnone.symm.trans hlistener
  · rintro (⟨hb, hlarge⟩ | ⟨hlistener, _, _, _⟩)
    · exact .tooLarge (List.mem_cons_of_mem _ hb) hlarge
    · cases hnone.symm.trans hlistener

/-- After a report that is heard, a run breaks off as if it had been reported
before. -/
theorem blames_cons_of_heard {listener : Listener}
    (h : Progress.ofFields b job.total = .ok p)
    (hlistener : job.listener = some listener)
    (hquiet : listener (heard ++ [p]) = false) :
    Blames job heard (b :: bs) why ↔ Blames job (heard ++ [p]) bs why := by
  constructor
  · rintro (⟨hb, hlarge⟩ | ⟨hlistener', hne, htold, hraised⟩)
    · rcases List.mem_cons.1 hb with rfl | hb
      · cases h.symm.trans hlarge
      · exact .tooLarge hb hlarge
    · cases hlistener.symm.trans hlistener'
      rw [reports_cons_of_ok h] at htold
      obtain ⟨first, told, rfl⟩ := List.exists_cons_of_ne_nil hne
      obtain ⟨rfl, hrest⟩ := List.cons_prefix_cons.1 htold
      rw [← List.singleton_append, ← List.append_assoc] at hraised
      refine .listener hlistener (fun hnil => ?_) hrest hraised
      rw [hnil, List.append_nil, hquiet] at hraised
      cases hraised
  · rintro (⟨hb, hlarge⟩ | @⟨_, told, hlistener', _, htold, hraised⟩)
    · exact .tooLarge (List.mem_cons_of_mem _ hb) hlarge
    · refine .listener hlistener' (List.cons_ne_nil p told) ?_ ?_
      · rw [reports_cons_of_ok h]
        exact List.cons_prefix_cons.2 ⟨rfl, htold⟩
      · rwa [← List.singleton_append, ← List.append_assoc]

end Blocks

/-! ## Reading -/

namespace Reading

variable {job : Job} {s : Reading}

/-- How reading ends is written in the blocks that are read. -/
def EndsBy (job : Job) (heard : List Progress) (bs : List Fields) :
    Option Break → Prop
  | none => ∀ why, ¬ Blames job heard bs why
  | some why => Blames job heard bs why

theorem EndsBy.congr {heard heard' : List Progress} {bs bs' : List Fields}
    {broken : Option Break} (h : EndsBy job heard bs broken)
    (hsame : ∀ why, Blames job heard' bs' why ↔ Blames job heard bs why) :
    EndsBy job heard' bs' broken := by
  cases broken with
  | none => exact fun why hwhy => h why ((hsame why).1 hwhy)
  | some why => exact (hsame why).2 h

/-- A block that is complete breaks the run off, or the rest decides. -/
theorem closeBlock_endsBy {rest : Reading → Reading × Option Break}
    {fields : List (String × String)}
    (hrest : ∀ s, EndsBy job s.heard (cutBlocks s.fields fields) (rest s).2)
    (s : Reading) :
    EndsBy job s.heard (s.fields :: cutBlocks [] fields)
      (match s.closeBlock job with
        | (s, some why) => (s, some why)
        | (s, none) => rest s).2 := by
  rw [closeBlock]
  cases h : Progress.ofFields s.fields job.total with
  | error fault =>
      cases fault with
      | tooLarge => exact .tooLarge (List.mem_cons_self ..) h
      | unusable => exact (hrest _).congr fun _ => blames_cons_of_unusable h
  | ok p =>
      dsimp only
      cases hlistener : job.listener with
      | none => exact (hrest _).congr fun _ => blames_cons_of_unheard h hlistener
      | some listener =>
          dsimp only [hear]
          cases hraised : listener (s.heard ++ [p]) with
          | true =>
              refine .listener hlistener (List.cons_ne_nil p []) ?_ hraised
              rw [reports_cons_of_ok h]
              exact List.cons_prefix_cons.2 ⟨rfl, List.nil_prefix⟩
          | false =>
              exact (hrest _).congr fun _ =>
                blames_cons_of_heard h hlistener hraised

/-- Reading goes on to its end when nothing is to blame, and breaks off for what
is to blame otherwise. -/
theorem follow_endsBy (job : Job) (steps : List Step) (s : Reading) :
    EndsBy job s.heard (cutBlocks s.fields (fieldsOf steps))
      (follow job steps s).2 := by
  induction steps generalizing s with
  | nil => exact fun _ => not_blames_nil
  | cons step steps ih =>
      cases step with
      -- The runner changes, but neither the block that was begun nor what was heard.
      | stop => exact ih s.stop
      | exit => exact ih s.exit
      | line text =>
          rw [follow]
          cases hfield : field? text with
          | none =>
              rw [takeLine, hfield, fieldsOf_line_none hfield]
              exact ih s
          | some field =>
              rw [takeLine, hfield, fieldsOf_line_some hfield, cutBlocks]
              dsimp only
              by_cases hprogress : field.1 = "progress"
              · rw [if_pos hprogress, if_pos hprogress]
                exact closeBlock_endsBy ih { s with fields := field :: s.fields }
              · rw [if_neg hprogress, if_neg hprogress]
                exact ih _

end Reading

/-- Nothing that is read in some steps breaks a run off. -/
def Quiet (job : Job) (steps : List Step) : Prop :=
  ∀ why, ¬ Blames job [] (blocks steps) why

theorem Reading.follow_none_iff (job : Job) (steps : List Step) (r : Runner) :
    (Reading.follow job steps { runner := r }).2 = none ↔ Quiet job steps := by
  have h := Reading.follow_endsBy job steps { runner := r }
  cases hbroken : (Reading.follow job steps { runner := r }).2 with
  | none =>
      rw [hbroken] at h
      exact ⟨fun _ => h, fun _ => rfl⟩
  | some why =>
      rw [hbroken] at h
      exact ⟨nofun, fun hquiet => absurd h (hquiet why)⟩

end Run

end Cutlist
