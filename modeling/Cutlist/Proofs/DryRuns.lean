import Cutlist.Proofs.CheckedExports

/-!
# A dry run shows what would run

An export is prepared first: it is checked, its output is named, and its command
is made. A dry run stops there. So a dry run and a real run of one request, from
one session, are the same up to the end of the preparation, and the preparation
only asks. What the real run does then is one launch of the command that the dry
run shows, with progress asked for right behind the program, unless there is no
directory to write to.
-/

namespace Cutlist

/-- The command that a runner starts is that of the job, whatever comes of it. -/
theorem Runner.started_run (runner : Runner) (job : Run.Job)
    (course : Run.Course) : (runner.run job course).1.started = job.started? := by
  rw [run]
  split
  · next hnone => exact hnone.symm
  · next hsome _ => exact hsome.symm
  · rw [supervise]
    rcases Run.Reading.follow job course.steps { runner := start course } with
      ⟨s, _ | why⟩ <;> rfl

namespace Export.Request

open Session
open Cutlist.Action (outcome_bind_eq_ok outcome_bind_error outcome_bind_ok)

variable {r : Request} {host : Host} {s s₁ : Session} {platform : Platform}
variable {output : FilePath} {command : List String}

/-! ## Preparing and carrying out -/

/-- What comes before a run: the output and the command. -/
def prepare (r : Request) (platform : Platform) :
    Action (FilePath × List String) := do
  r.check
  let output ← r.outputPath
  let command ← r.command platform output.toText
  return (output, command)

/-- Runs the command of an export. -/
def carryOut (r : Request) (output : FilePath) (command : List String)
    (listener : Option Run.Listener) (shown : Run.Progress → String) :
    Action Answer := do
  change (·.makeDirectories output.parent)
  let _ ← encode (job (← read) (← r.pieces) command listener) shown
  return ⟨output, command, true⟩

theorem answer_eq (r : Request) (platform : Platform)
    (listener : Option Run.Listener) (shown : Run.Progress → String) :
    r.answer platform listener shown = r.prepare platform >>= fun x =>
      if r.dryRun then return ⟨x.1, x.2, false⟩
      else r.carryOut x.1 x.2 listener shown := by
  simp only [answer, prepare, carryOut, bind_assoc, pure_bind]

theorem outputPath_asks (r : Request) (host : Host) : Asks host r.outputPath := by
  refine .bind .read fun host => ?_
  split
  · exact .pure _
  · dsimp only
    split
    · exact .pure _
    · exact .throw _

theorem prepare_asks (r : Request) (platform : Platform) (host : Host) :
    Asks host (r.prepare platform) :=
  .bind (r.check_asks host) fun _ => .bind (r.outputPath_asks host) fun _ =>
    .bind (r.command_asks platform _ host) fun _ => .pure _

/-- What is prepared is a command of the encoder. -/
theorem command_of_prepare
    (h : (r.prepare platform).outcome host s = (.ok (output, command), s₁)) :
    ∃ args, command = Recording.program host :: args := by
  obtain ⟨_, _, _, h⟩ := outcome_bind_eq_ok h
  obtain ⟨_, _, _, h⟩ := outcome_bind_eq_ok h
  obtain ⟨_, _, hcommand, h⟩ := outcome_bind_eq_ok h
  cases h
  obtain ⟨_, args, _, _, hwords⟩ := command_eq_ok hcommand
  exact ⟨args, hwords⟩

/-! ## One launch -/

/-- A launch of a command: progress is asked for right behind the program, and all
else is the command. -/
def Launches (launch : Launch) (command : List String) : Prop :=
  (launch.command.drop 1).take 3 = ["-progress", "pipe:1", "-nostats"] ∧
    launch.command.take 1 ++ launch.command.drop 4 = command

theorem launches_started (program : String) (args : List String) (t : FileTree)
    (report : Run.Report) :
    Launches ⟨program :: "-progress" :: "pipe:1" :: "-nostats" :: args, t, report⟩
      (program :: args) :=
  ⟨rfl, rfl⟩

/-- Carrying out fails for want of a directory, or it is one launch, and what is
reported of it decides. -/
theorem outcome_carryOut {args : List String} (r : Request) (host : Host)
    (s : Session) (output : FilePath)
    (hcommand : command = Recording.program host :: args)
    (listener : Option Run.Listener) (shown : Run.Progress → String) :
    (∃ why, s.files.makeDirectories output.parent = .error why ∧
      (r.carryOut output command listener shown).outcome host s =
        (.error (.file why), s)) ∨
    ∃ s' launch runner, Launches launch command ∧
      s'.launches = s.launches ++ [launch] ∧
      launch.report = (Runner.run
        (job host r.project.pieces command listener) host.course runner).1 ∧
      (r.carryOut output command listener shown).outcome host s =
        ((launch.report.result.mapError .run).map
          fun _ => ⟨output, command, true⟩, s') := by
  subst hcommand
  cases hmade : s.files.makeDirectories output.parent with
  | error why =>
      refine .inl ⟨why, rfl, ?_⟩
      rw [carryOut, outcome_bind_error (outcome_change_error hmade)]
  | ok t =>
      right
      obtain ⟨s₁, hpieces⟩ := r.outcome_pieces host { s with files := t }
      have hbefore : s₁.launches = s.launches :=
        ((r.pieces_asks host).asked hpieces).launches
      obtain ⟨s₂, hencode, _, _, hlaunches⟩ := outcome_encode_shown host s₁
        (job host r.project.pieces (Recording.program host :: args) listener) shown
      rw [Runner.started_run, hbefore] at hlaunches
      refine ⟨s₂, _, s₁.runner, launches_started _ _ _ _, hlaunches, rfl, ?_⟩
      rw [carryOut, outcome_bind_ok (outcome_change_ok hmade),
        outcome_bind_ok (outcome_read host _), outcome_bind_ok hpieces,
        Action.outcome_bind, hencode]
      cases (Runner.run (job host r.project.pieces (Recording.program host :: args)
        listener) host.course s₁.runner).1.result <;> rfl

/-! ## Two runs of one request -/

/-- How a real run goes on where a dry one ends: there is no directory for the
output, or the encoder is launched once and decides what comes of it. -/
inductive GoesOn (s : Session) (output : FilePath) (command : List String) :
    Except Failure Answer × Session → Prop
  | unmade {why : FileError}
    (h : s.files.makeDirectories output.parent = .error why) :
    GoesOn s output command (.error (.file why), s)
  | ran {s' : Session} {launch : Launch} (h : Launches launch command)
    (hlaunches : s'.launches = s.launches ++ [launch]) :
    GoesOn s output command
      ((launch.report.result.mapError .run).map
        fun _ => ⟨output, command, true⟩, s')

/-- A dry run and a real run from one session fail in the same way, having only
asked, or the dry run shows what the real run does. -/
inductive Foreshows (host : Host) (s : Session)
    (dry real : Except Failure Answer × Session) : Prop
  | failed {failure : Failure} {s₁ : Session} (hasked : Asked host s s₁)
    (hdry : dry = (.error failure, s₁)) (hreal : real = (.error failure, s₁))
  | shown {output : FilePath} {command : List String} {s₁ : Session}
    (hasked : Asked host s s₁) (hdry : dry = (.ok ⟨output, command, false⟩, s₁))
    (hreal : GoesOn s₁ output command real)

theorem outcome_answer (h : (r.prepare platform).outcome host s =
      (.ok (output, command), s₁)) (listener : Option Run.Listener)
    (shown : Run.Progress → String) :
    (r.answer platform listener shown).outcome host s =
      if r.dryRun then (.ok ⟨output, command, false⟩, s₁)
      else (r.carryOut output command listener shown).outcome host s₁ := by
  rw [answer_eq, outcome_bind_ok h]
  split <;> rfl

theorem outcome_answer_error {failure : Failure}
    (h : (r.prepare platform).outcome host s = (.error failure, s₁))
    (listener : Option Run.Listener) (shown : Run.Progress → String) :
    (r.answer platform listener shown).outcome host s = (.error failure, s₁) := by
  rw [answer_eq, outcome_bind_error h]

/-- Whatever is asked for and wherever, a dry run foreshows the real one. -/
theorem dry_run_foreshows (r : Request) (platform : Platform) (host : Host)
    (s : Session) (listener listener' : Option Run.Listener)
    (shown shown' : Run.Progress → String) :
    Foreshows host s
      (({ r with dryRun := true }.answer platform listener shown).outcome host s)
      (({ r with dryRun := false }.answer platform listener' shown').outcome host s) := by
  rcases hprepare : (r.prepare platform).outcome host s with
    ⟨failure | ⟨output, command⟩, s₁⟩
  all_goals have hasked : Asked host s s₁ :=
    (r.prepare_asks platform host).asked hprepare
  · -- Both prepare alike, since the preparation does not look at the kind of run.
    have hprepared (dry : Bool) :
        ({ r with dryRun := dry }.prepare platform).outcome host s =
          (.error failure, s₁) := hprepare
    exact .failed hasked (outcome_answer_error (hprepared true) listener shown)
      (outcome_answer_error (hprepared false) listener' shown')
  · have hprepared (dry : Bool) :
        ({ r with dryRun := dry }.prepare platform).outcome host s =
          (.ok (output, command), s₁) := hprepare
    obtain ⟨args, hcommand⟩ := command_of_prepare hprepare
    refine .shown hasked (outcome_answer (hprepared true) listener shown) ?_
    rw [outcome_answer (hprepared false) listener' shown',
      if_neg Bool.false_ne_true]
    obtain ⟨why, hmade, hout⟩ | ⟨s', launch, _, hlaunch, hlaunches, _, hout⟩ :=
      outcome_carryOut { r with dryRun := false } host s₁ output hcommand
        listener' shown'
    · rw [hout]
      exact .unmade hmade
    · rw [hout]
      exact .ran hlaunch hlaunches

end Export.Request

end Cutlist
