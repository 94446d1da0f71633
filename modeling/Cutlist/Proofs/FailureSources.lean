import Cutlist.Proofs.DryRuns
import Cutlist.Proofs.LifeOfARun

/-!
# Where failures come from

An export can fail in many ways, and the failure alone should tell where.
Nothing but the check rejects what is exported, and nothing but the run of the
encoder fails with an error of the encoder; so a look at the failure is enough
to know how far the export came. What the encoder reports is told apart in the
same way, for a listener that lets every run go on.
-/

namespace Cutlist

open Export

/-! ## Where failures come from -/

namespace Session

open Cutlist.Action (outcome_bind)

variable {α β : Type} {P Q : Failure → Prop}

/-- Whatever an action fails with meets a condition. -/
def FailsWith (P : Failure → Prop) (a : Action α) : Prop :=
  ∀ host s failure s', a.outcome host s = (.error failure, s') → P failure

namespace FailsWith

theorem mono {a : Action α} (ha : FailsWith P a)
    (h : ∀ failure, P failure → Q failure) : FailsWith Q a :=
  fun host s failure s' houtcome => h failure (ha host s failure s' houtcome)

/-- An action that always succeeds fails with nothing. -/
theorem of_succeeds {a : Action α}
    (h : ∀ host s, ∃ x s', a.outcome host s = (.ok x, s')) : FailsWith P a := by
  intro host s failure s' hfails
  obtain ⟨x, s'', hok⟩ := h host s
  cases hok.symm.trans hfails

theorem pure (x : α) : FailsWith P (Pure.pure x : Action α) :=
  of_succeeds fun _ s => ⟨x, s, rfl⟩

theorem read : FailsWith P (MonadReader.read : Action Host) :=
  of_succeeds fun host s => ⟨host, s, rfl⟩

theorem get : FailsWith P (MonadState.get : Action Session) :=
  of_succeeds fun _ s => ⟨s, s, rfl⟩

theorem ffmpeg : FailsWith P ffmpeg :=
  of_succeeds fun host s => ⟨_, _, Recording.outcome_ffmpeg host s⟩

theorem throw {failure : Failure} (h : P failure) :
    FailsWith P (throw failure : Action α) := by
  intro host s failure s' houtcome
  cases houtcome
  exact h

theorem ofExcept {ε : Type} {failure : ε → Failure} (h : ∀ e, P (failure e))
    (r : Except ε α) : FailsWith P (ofExcept failure r) := by
  cases r with
  | ok a => exact .pure a
  | error e => exact .throw (h e)

theorem bind {a : Action α} {f : α → Action β} (ha : FailsWith P a)
    (hf : ∀ x, FailsWith P (f x)) : FailsWith P (a >>= f) := by
  intro host s failure s' h
  rw [outcome_bind] at h
  rcases houtcome : a.outcome host s with ⟨failure' | x, s₁⟩
  · rw [houtcome] at h
    cases h
    exact ha host s _ _ houtcome
  · rw [houtcome] at h
    exact hf x host s₁ _ _ h

end FailsWith

theorem hasSound_failsWith (h : ∀ trouble, P (.probe trouble)) (path : String) :
    FailsWith P (hasSound path) := by
  intro host s failure s' houtcome
  have hresult := hasSound_result path none host s
  rw [houtcome] at hresult
  cases hanswer : (host.probe .sound path).document (callFor host none .sound path) >>=
      MediaProbe.sound with
  | ok b =>
      rw [hanswer] at hresult
      cases hresult
  | error trouble =>
      rw [hanswer, verdict] at hresult
      split at hresult
      · cases hresult
      · cases hresult
        exact h trouble

end Session

namespace Export.Request

open Session
open Cutlist.Action (outcome_bind)

variable {r : Request} {host : Host} {s : Session} {platform : Platform}

/-- A failure for which neither the check nor the encoder is to blame. -/
inductive Unrelated : Failure → Prop
  | probe (trouble : MediaProbe.Trouble) : Unrelated (.probe trouble)
  | graph (error : FilterGraph.BuildError) : Unrelated (.graph error)
  | nameKind : Unrelated .nameKind

/-- A failure before the encoder is asked for anything. -/
inductive Early : Failure → Prop
  | fault (fault : Validation.Fault) : Early (.validation fault)
  | unrelated {failure : Failure} (h : Unrelated failure) : Early failure

theorem Early.ne_run {failure : Failure} (h : Early failure) (e : Run.Error) :
    failure ≠ .run e := by
  rintro rfl
  cases h with
  | unrelated h => cases h

theorem check_failsWith (r : Request) : FailsWith Early r.check := by
  refine .bind .get fun s => .bind (.ofExcept .fault _) fun needs => ?_
  cases needs with
  | true =>
      exact .bind (hasSound_failsWith (fun trouble =>
        .unrelated (.probe trouble)) _)
        fun _ => .ofExcept .fault _
  | false => exact .pure ()

theorem outputPath_failsWith (r : Request) :
    FailsWith Unrelated r.outputPath := by
  refine .bind .read fun host => ?_
  split
  · exact .pure _
  · dsimp only
    split
    · exact .pure _
    · exact .throw .nameKind

theorem command_failsWith (r : Request) (platform : Platform) (output : String) :
    FailsWith Unrelated (r.command platform output) := by
  have hpieces : FailsWith Unrelated r.pieces := .of_succeeds fun host s =>
    ⟨r.project.pieces, r.outcome_pieces host s⟩
  have hplan : FailsWith Unrelated r.plan :=
    .bind (hasSound_failsWith .probe _) fun _ => .bind hpieces fun _ => .pure _
  exact .bind hplan fun _ => .bind (.ofExcept .graph _) fun _ =>
    .bind .ffmpeg fun _ => .pure _

theorem prepare_failsWith (r : Request) (platform : Platform) :
    FailsWith Early (r.prepare platform) :=
  .bind r.check_failsWith fun _ =>
    .bind (r.outputPath_failsWith.mono fun _ => .unrelated) fun _ =>
      .bind ((r.command_failsWith platform _).mono fun _ => .unrelated) fun _ =>
        .pure _

/-- Nothing but the check finds fault with what is exported. -/
theorem prepare_fault_iff {fault : Validation.Fault} :
    ((r.prepare platform).outcome host s).1 = .error (.validation fault) ↔
      (r.check.outcome host s).1 = .error (.validation fault) := by
  have hrest : FailsWith Unrelated (do
      let output ← r.outputPath
      let command ← r.command platform output.toText
      return (output, command)) :=
    .bind r.outputPath_failsWith fun _ => .bind (r.command_failsWith platform _)
      fun _ => .pure _
  rw [prepare, outcome_bind]
  rcases r.check.outcome host s with ⟨failure | _, s₁⟩
  · simp only [Except.error.injEq]
  · constructor
    · intro h
      cases hrest host s₁ _ _ (Prod.ext h rfl)
    · intro h
      cases h

end Export.Request

/-! ## What the encoder reports -/

namespace Run

variable {job : Job} {course : Course} {stopped : Bool} {e : Error}

theorem verdict_isEncoders (h : verdict job course stopped = .error e) :
    e.isEncoders = true := by
  rw [verdict] at h
  split at h
  · cases h
    rfl
  split at h
  · cases h
  split at h
  · split at h
    all_goals
      cases h
      rfl
  · cases h
    rfl

/-- A listener that never breaks a run off. -/
def Patient (job : Job) : Prop := job.listener = some fun _ => false

/-- Only a number out of range breaks off a run with a patient listener. -/
theorem Patient.blames (h : Patient job) {heard : List Progress}
    {bs : List Fields} {why : Break} (hblames : Blames job heard bs why) :
    why = .tooLarge := by
  cases hblames with
  | tooLarge hb hfault => rfl
  | listener hlistener hne htold hbreaks =>
      rw [h] at hlistener
      cases hlistener
      cases hbreaks

/-- What is reported of a command that was given to the system, when the listener
is patient. -/
structure Reported (course : Course) (report : Report) : Prop where
  succeeded : ∀ told, report.result = .ok told →
    course.refusal = none ∧ course.exitCode = 0 ∧ .stop true ∉ report.events
  cancelled_iff : report.result = .error .cancelled ↔
    .stop true ∈ report.events ∧ report.result ≠ .error .tooLarge
  fails : ∀ e, report.result = .error e → e.isEncoders = true ∨ e = .tooLarge

theorem reported_run {command : List String} (hjob : job.started? = some command)
    (hpatient : Patient job) (course : Course) (runner : Runner) :
    Reported course (runner.run job course).1 := by
  cases hrefusal : course.refusal with
  | some why =>
      have hresult : (runner.run job course).1.result =
          .error (.refused why) := by
        rw [Runner.run, hjob, hrefusal]
      have hevents : (runner.run job course).1.events = [] := by
        rw [Runner.run, hjob, hrefusal]
      constructor <;> simp [hresult, hevents, Error.isEncoders]
  | none =>
      rw [Runner.run_started hjob hrefusal]
      obtain ⟨read, hlived⟩ := Runner.supervise_lived job course
      by_cases hquiet : Quiet job course.steps
      · have hfails : ∀ e, (Runner.supervise job course).1.result = .error e →
            e.isEncoders = true := by
          intro e he
          have hnone := (Reading.follow_none_iff job course.steps
            (Runner.start course)).2 hquiet
          rw [(Runner.supervise_quiet (Prod.ext rfl hnone)).1] at he
          exact verdict_isEncoders he
        refine ⟨fun told htold => ?_, ?_, fun e he => .inl (hfails e he)⟩
        · obtain ⟨hstop, hcode, _⟩ := (hlived.succeeded_iff hquiet told).1 htold
          exact ⟨hrefusal, hcode, hstop⟩
        · rw [hlived.cancelled_iff hquiet]
          refine ⟨fun hstop => ⟨hstop, fun he => ?_⟩, fun h => h.1⟩
          cases hfails _ he
      · obtain ⟨why, hblames, hresult⟩ := hlived.broken hquiet
        cases hpatient.blames hblames
        constructor <;> simp [hresult, Break.error]

end Run

end Cutlist
