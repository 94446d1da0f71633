import Cutlist.CommandLine
import Cutlist.Proofs.Compiling
import Cutlist.Proofs.DamagedProjects
import Cutlist.Proofs.FailureSources
import Cutlist.Proofs.MergedRecording

/-!
# What an exit code says

Scripts see nothing of an export but its exit code. Zero should mean that the
encoder ran once, with the command of the export, and ended well, or that it was
a dry run; two that the export was rejected, and 130 that it was cancelled.

Which code an export gets is decided by what it fails with, and a failure tells
where it comes from: only the check rejects, and only the run of the encoder
fails with an error of the encoder. So each code is traced back to one launch
and to what was reported of it.

One failure has no code. A number out of range in the progress of the encoder
breaks the run off, and that counts more than a request to stop that came
before.
-/

namespace Cutlist

open Export

/-! ## From failures to codes -/

namespace CommandLine

open Session Request
open Cutlist.Action (outcome_bind outcome_bind_ok outcome_bind_error)

variable {host : Host} {s s₁ s₂ : Session} {failure : Failure}

/-- The code of a failure that the export itself reports. -/
def reportedCode : Failure → Option Nat
  | .validation (.rejected _) => some 2
  | failure => failure.ofEncoder?.map fun e => if e = .cancelled then 130 else 1

/-- The code of an export by its answer, or the failure that escapes. -/
def exitOf : Except Failure Answer → Except Failure Nat
  | .ok _ => .ok 0
  | .error failure => (reportedCode failure).elim
    (if failure.isReported then .ok 1 else .error failure) .ok

/-- Which failures the export reports, and with which code. -/
inductive Coded : Failure → Option Nat → Prop
  | rejected (why : Rejection) : Coded (.validation (.rejected why)) (some 2)
  | cancelled : Coded (.run .cancelled) (some 130)
  | failed {e : Run.Error} (h : e.isEncoders = true) (hne : e ≠ .cancelled) :
    Coded (.run e) (some 1)
  | other {failure : Failure}
    (hfault : ∀ why, failure ≠ .validation (.rejected why))
    (hrun : ∀ e, failure = .run e → e.isEncoders = false) : Coded failure none

theorem coded (failure : Failure) : Coded failure (reportedCode failure) := by
  cases failure with
  | validation fault =>
      cases fault with
      | rejected why => exact .rejected why
      | pathKind => exact .other nofun nofun
      | file e => exact .other nofun nofun
  | run e =>
      have hcode : reportedCode (.run e) =
          if e.isEncoders then some (if e = .cancelled then 130 else 1)
            else none := by
        change ((if e.isEncoders then some e else none).map fun e =>
          if e = .cancelled then 130 else 1) = _
        cases e.isEncoders <;> rfl
      rw [hcode]
      cases hencoders : e.isEncoders with
      | false =>
          refine .other nofun fun e' he => ?_
          cases he
          exact hencoders
      | true =>
          by_cases hcancelled : e = .cancelled
          · subst hcancelled
            exact .cancelled
          · rw [if_pos rfl, if_neg hcancelled]
            exact .failed hencoders hcancelled
  | library | probe | graph | choice | journal | file | nameKind =>
      exact .other nofun nofun

/-- A code comes of one kind of answer, except that 1 comes of many. -/
theorem exitOf_known {r : Except Failure Answer} {code : Nat}
    (h : exitOf r = .ok code) :
    code = 1 ∨ code = 0 ∧ (∃ a, r = .ok a) ∨
      code = 2 ∧ (∃ why, r = .error (.validation (.rejected why))) ∨
      code = 130 ∧ r = .error (.run .cancelled) := by
  cases r with
  | ok a =>
      cases h
      exact .inr (.inl ⟨rfl, a, rfl⟩)
  | error failure =>
      have hcoded := coded failure
      rw [exitOf] at h
      cases hreported : reportedCode failure with
      | none =>
          rw [hreported, Option.elim_none] at h
          split at h
          · cases h
            exact .inl rfl
          · cases h
      | some reported =>
          rw [hreported] at h hcoded
          cases h
          cases hcoded with
          | rejected why => exact .inr (.inr (.inl ⟨rfl, why, rfl⟩))
          | cancelled => exact .inr (.inr (.inr ⟨rfl, rfl⟩))
          | failed => exact .inl rfl

theorem exitOf_failed {e : Run.Error} (h : e.isEncoders = true)
    (hne : e ≠ .cancelled) : exitOf (.error (.run e)) = .ok 1 := by
  have hcoded := coded (.run e)
  rw [exitOf]
  cases hreported : reportedCode (.run e) with
  | none =>
      rw [hreported] at hcoded
      cases hcoded with
      | other hfault hrun =>
          rw [hrun e rfl] at h
          cases h
  | some reported =>
      rw [hreported] at hcoded
      cases hcoded with
      | cancelled => exact absurd rfl hne
      | failed => rfl

/-- The export says what went wrong, if it reports that, and that
is all it does. -/
theorem outcome_reportExport (failure : Failure) (host : Host) (s : Session) :
    ∃ s', (reportExport failure).outcome host s =
        ((reportedCode failure).elim (.error failure) .ok, s') ∧
      s'.launches = s.launches := by
  cases failure with
  | validation fault => cases fault <;> exact ⟨_, rfl, rfl⟩
  | run e => cases e <;> exact ⟨_, rfl, rfl⟩
  | library | probe | graph | choice | journal | file | nameKind =>
      exact ⟨_, rfl, rfl⟩

/-- How a call ends with what became of its command. -/
def settle : Except Failure Nat → Action Nat
  | .ok code => return code
  | .error failure =>
      if failure.isReported then do
        complain s!"Error: {failure.message}\n"
        return 1
      else throw failure

theorem outcome_settle (r : Except Failure Nat) (host : Host) (s : Session) :
    ∃ s', s'.launches = s.launches ∧ (settle r).outcome host s =
      (match r with
        | .ok code => .ok code
        | .error failure => if failure.isReported then .ok 1
            else .error failure, s') := by
  cases r with
  | ok code => exact ⟨s, rfl, rfl⟩
  | error failure =>
      rw [settle]
      split
      · next hreported =>
        refine ⟨{ s with
          complained := s.complained ++ s!"Error: {failure.message}\n" }, rfl, ?_⟩
        dsimp only
        rw [if_pos hreported]
        rfl
      · next hreported =>
        refine ⟨s, rfl, ?_⟩
        dsimp only
        rw [if_neg hreported]
        rfl

theorem run_eq (i : Invocation) : run i = (do
    let host ← read
    setUpJournal host.settings.logFile
      (if i.verbose then verboseLevel else host.settings.logLevel)
    settle (← attempt (perform i.command))) := rfl

/-! ## One call of the program -/

/-- The request of a call, with the session after the journal was set up. -/
structure Requested (verbose : Bool) (path : String) (choice : ExportChoice)
    (host : Host) (s s₁ : Session) (r : Request) (platform : Platform) :
    Prop where
  journal : (setUpJournal host.settings.logFile
    (if verbose then verboseLevel else host.settings.logLevel)).outcome host s =
      (.ok (), s₁)
  project : ∃ p, Library.loadFrom s₁.files host.now
    (FilePath.ofString path) = .ok p ∧
    r = choice.request p
  platform : Request.platform host = .ok platform

/-- The answer to a request, with what is shown of its progress. -/
def shownAnswer (r : Request) (platform : Platform) : Action Answer :=
  r.answer platform (some fun _ => false) progressText

section Calls

variable {verbose : Bool} {path : String} {choice : ExportChoice} {r r' : Request}
variable {s₁' : Session} {platform platform' : Platform}

theorem Requested.unique (h : Requested verbose path choice host s s₁ r platform)
    (h' : Requested verbose path choice host s s₁' r' platform') :
    s₁' = s₁ ∧ r' = r ∧ platform' = platform := by
  cases h.journal.symm.trans h'.journal
  obtain ⟨p, hp, rfl⟩ := h.project
  obtain ⟨p', hp', rfl⟩ := h'.project
  cases hp.symm.trans hp'
  cases h.platform.symm.trans h'.platform
  exact ⟨rfl, rfl, rfl⟩

theorem Requested.dryRun
    (h : Requested verbose path choice host s s₁ r platform) :
    r.dryRun = choice.dryRun := by
  obtain ⟨p, _, rfl⟩ := h.project
  rfl

/-- The only request of a call is rejected where it is not prepared for that. -/
theorem Requested.rejected_iff
    (h : Requested verbose path choice host s s₁ r platform) :
    (∃ s₁ r platform why, Requested verbose path choice host s s₁ r platform ∧
      (r.check.outcome host s₁).1 = .error (.validation (.rejected why))) ↔
    ∃ why, ((r.prepare platform).outcome host s₁).1 =
      .error (.validation (.rejected why)) := by
  constructor
  · rintro ⟨s₁', r', platform', why, h', hcheck⟩
    obtain ⟨rfl, rfl, rfl⟩ := h.unique h'
    exact ⟨why, prepare_fault_iff.2 hcheck⟩
  · rintro ⟨why, hprepare⟩
    exact ⟨s₁, r, platform, why, h, prepare_fault_iff.1 hprepare⟩

/-- Setting up the journal starts nothing. -/
theorem setUpJournal_launches (file : Option String) (level : Journal.Level)
    (host : Host) (s : Session) :
    ((setUpJournal file level).outcome host s).2.launches = s.launches := by
  have houtcome : (setUpJournal file level).outcome host s =
      (ofExcept .journal (Journal.setUp file level s.files s.journal).result).outcome
        host { s with
          files := (Journal.setUp file level s.files s.journal).files
          journal := (Journal.setUp file level s.files s.journal).journal } := rfl
  rw [houtcome, outcome_ofExcept]

theorem Requested.launches
    (h : Requested verbose path choice host s s₁ r platform) :
    s₁.launches = s.launches := by
  have hset := setUpJournal_launches host.settings.logFile
    (if verbose then verboseLevel else host.settings.logLevel) host s
  rwa [h.journal] at hset

theorem outcome_exportProject {p : Project} (choice : ExportChoice)
    (hproject : Library.loadFrom s.files host.now (FilePath.ofString path) =
      .ok p)
    (hplatform : Request.platform host = .ok platform) :
    ∃ s', s'.launches =
        ((shownAnswer (choice.request p) platform).outcome host s).2.launches ∧
      (exportProject path choice).outcome host s =
        (match ((shownAnswer (choice.request p) platform).outcome host s).1 with
          | .ok _ => .ok 0
          | .error failure => (reportedCode failure).elim (.error failure) .ok,
              s') := by
  rw [exportProject, outcome_bind_ok (outcome_read _ _),
    outcome_bind_ok (outcome_get _ _),
    outcome_bind_ok (outcome_ofExcept_ok hproject _),
    outcome_bind_ok (outcome_ofExcept_ok hplatform _)]
  have hattempt :
      (attempt (shownAnswer (choice.request p) platform)).outcome host s =
      (.ok ((shownAnswer (choice.request p) platform).outcome host s).1,
        ((shownAnswer (choice.request p) platform).outcome host s).2) :=
          outcome_attempt _
  rcases hanswer : (shownAnswer (choice.request p) platform).outcome host s with
    ⟨failure | a, s'⟩
  · rw [hanswer] at hattempt
    obtain ⟨s'', hreport, hlaunches⟩ := outcome_reportExport failure host s'
    exact ⟨s'', hlaunches, (outcome_bind_ok hattempt _).trans hreport⟩
  · rw [hanswer] at hattempt
    exact ⟨{ s' with said := s'.said ++ answerText a }, rfl,
      outcome_bind_ok hattempt _⟩

/-- Behind the journal a call does what its command does. -/
theorem outcome_run_command
    (h : (setUpJournal host.settings.logFile
      (if verbose then verboseLevel else host.settings.logLevel)).outcome host s =
        (.ok (), s₁)) (command : Command) :
    ∃ s', s'.launches = ((perform command).outcome host s₁).2.launches ∧
      (run ⟨verbose, command⟩).outcome host s =
        (match ((perform command).outcome host s₁).1 with
          | .ok code => .ok code
          | .error failure => if failure.isReported then .ok 1
              else .error failure, s') := by
  obtain ⟨s', hlaunches, hsettle⟩ := outcome_settle
    ((perform command).outcome host s₁).1 host
      ((perform command).outcome host s₁).2
  refine ⟨s', hlaunches, ?_⟩
  rw [run_eq, outcome_bind_ok (outcome_read _ _), outcome_bind_ok h,
    outcome_bind_ok (outcome_attempt (perform command)), hsettle]

/-- A call that comes to a request ends as the answer to it says. -/
theorem outcome_run (h : Requested verbose path choice host s s₁ r platform) :
    ((run ⟨verbose, .export path choice⟩).outcome host s).1 =
        exitOf ((shownAnswer r platform).outcome host s₁).1 ∧
      ((run ⟨verbose, .export path choice⟩).outcome host s).2.launches =
        ((shownAnswer r platform).outcome host s₁).2.launches := by
  obtain ⟨p, hp, rfl⟩ := h.project
  obtain ⟨s₂, hexported, hexport⟩ :=
    outcome_exportProject choice hp h.platform
  obtain ⟨s', hlaunches, hrun⟩ :=
    outcome_run_command h.journal (.export path choice)
  rw [perform, hexport] at hlaunches hrun
  rw [hrun]
  refine ⟨?_, hlaunches.trans hexported⟩
  cases hanswer :
    ((shownAnswer (choice.request p) platform).outcome host s₁).1 with
  | ok a => rfl
  | error failure =>
      rw [exitOf]
      dsimp only
      cases reportedCode failure <;> rfl

/-- Without a project and a platform, nothing is exported. -/
theorem exportProject_fails (choice : ExportChoice)
    (h : ∀ p platform,
      Library.loadFrom s.files host.now (FilePath.ofString path) = .ok p →
      Request.platform host ≠ .ok platform) :
    ∃ failure, (exportProject path choice).outcome host s =
      (.error failure, s) := by
  rw [exportProject, outcome_bind_ok (outcome_read _ _),
    outcome_bind_ok (outcome_get _ _)]
  cases hproject : Library.loadFrom s.files host.now (FilePath.ofString path) with
  | error fault =>
      exact ⟨.library fault,
        outcome_bind_error (outcome_ofExcept_error hproject _) _⟩
  | ok p =>
      rw [outcome_bind_ok (outcome_ofExcept_ok hproject _)]
      cases hplatform : Request.platform host with
      | error u =>
          exact ⟨.choice u, outcome_bind_error (outcome_ofExcept_error rfl _) _⟩
      | ok platform => exact absurd hplatform (h p platform hproject)

/-- A call that comes to no request gets no other code than 1. -/
theorem outcome_run_early
    (h : ∀ s₁ r platform, ¬ Requested verbose path choice host s s₁ r platform) :
    (((run ⟨verbose, .export path choice⟩).outcome host s).1 = .ok 1 ∨
        ∃ failure, ((run ⟨verbose, .export path choice⟩).outcome host s).1 =
          .error failure) ∧
      ((run ⟨verbose, .export path choice⟩).outcome host s).2.launches =
        s.launches := by
  have hlaunches := setUpJournal_launches host.settings.logFile
    (if verbose then verboseLevel else host.settings.logLevel) host s
  rcases hjournal : (setUpJournal host.settings.logFile
    (if verbose then verboseLevel else host.settings.logLevel)).outcome
      host s with
    ⟨failure | _, s₁⟩
  all_goals rw [hjournal] at hlaunches
  · rw [run_eq, outcome_bind_ok (outcome_read host s),
      outcome_bind_error hjournal]
    exact ⟨.inr ⟨failure, rfl⟩, hlaunches⟩
  · obtain ⟨failure, hexport⟩ := exportProject_fails choice
      fun p platform hproject hplatform =>
        h s₁ (choice.request p) platform ⟨hjournal, ⟨p, hproject, rfl⟩, hplatform⟩
    obtain ⟨s', hlaunches', hrun⟩ :=
      outcome_run_command hjournal (.export path choice)
    rw [perform, hexport] at hlaunches' hrun
    rw [hrun]
    refine ⟨?_, hlaunches'.trans hlaunches⟩
    dsimp only
    split
    · exact .inl rfl
    · exact .inr ⟨failure, rfl⟩

/-- All that can become of a call: it comes to no request, or the request is not
prepared, or it was a dry run, or there is no directory for the output, or the
encoder is launched. -/
inductive Goes (verbose : Bool) (path : String) (choice : ExportChoice)
    (host : Host) (s : Session) (x : Except Failure Nat × Session) : Prop
  | early (hnone : ∀ s₁ r platform,
        ¬ Requested verbose path choice host s s₁ r platform)
    (hresult : x.1 = .ok 1 ∨ ∃ failure, x.1 = .error failure)
    (hlaunches : x.2.launches = s.launches)
  | unprepared {s₁ : Session} {r : Request} {platform : Platform}
    {failure : Failure}
    (hrequested : Requested verbose path choice host s s₁ r platform)
    (hprepare : ((r.prepare platform).outcome host s₁).1 = .error failure)
    (hresult : x.1 = exitOf (.error failure))
    (hlaunches : x.2.launches = s.launches)
  | dry {s₁ s₂ : Session} {r : Request} {platform : Platform} {output : FilePath}
    {command : List String}
    (hrequested : Requested verbose path choice host s s₁ r platform)
    (hprepare : (r.prepare platform).outcome host s₁ =
      (.ok (output, command), s₂))
    (hdry : r.dryRun = true) (hresult : x.1 = .ok 0)
    (hlaunches : x.2.launches = s.launches)
  | unmade {s₁ s₂ : Session} {r : Request} {platform : Platform}
    {output : FilePath} {command : List String} {why : FileError}
    (hrequested : Requested verbose path choice host s s₁ r platform)
    (hprepare : (r.prepare platform).outcome host s₁ =
      (.ok (output, command), s₂))
    (hresult : x.1 = exitOf (.error (.file why)))
    (hlaunches : x.2.launches = s.launches)
  | launched {s₁ s₂ : Session} {r : Request} {platform : Platform}
    {output : FilePath} {command : List String} {launch : Launch}
    (hrequested : Requested verbose path choice host s s₁ r platform)
    (hprepare : (r.prepare platform).outcome host s₁ =
      (.ok (output, command), s₂))
    (hreal : r.dryRun = false) (hlaunch : Launches launch command)
    (hreported : Run.Reported host.course launch.report)
    (hresult : x.1 = exitOf ((launch.report.result.mapError .run).map
      fun _ => ⟨output, command, true⟩))
    (hlaunches : x.2.launches = s.launches ++ [launch])

theorem goes (verbose : Bool) (path : String) (choice : ExportChoice)
    (host : Host) (s : Session) : Goes verbose path choice host s
      ((run ⟨verbose, .export path choice⟩).outcome host s) := by
  by_cases hcomes : ∃ s₁ r platform,
    Requested verbose path choice host s s₁ r platform
  · obtain ⟨s₁, r, platform, hrequested⟩ := hcomes
    obtain ⟨hresult, hlaunches⟩ := outcome_run hrequested
    rw [shownAnswer] at hresult hlaunches
    rcases hprepare : (r.prepare platform).outcome host s₁ with
      ⟨failure | ⟨output, command⟩, s₂⟩
    all_goals
      have hbefore : s₂.launches = s.launches :=
        ((r.prepare_asks platform host).asked hprepare).launches.trans
          hrequested.launches
    · rw [outcome_answer_error hprepare] at hresult hlaunches
      exact .unprepared hrequested (by rw [hprepare]) hresult
        (hlaunches.trans hbefore)
    · rw [outcome_answer hprepare] at hresult hlaunches
      cases hdry : r.dryRun with
      | true =>
          rw [hdry, if_pos rfl] at hresult hlaunches
          exact .dry hrequested hprepare hdry hresult (hlaunches.trans hbefore)
      | false =>
          rw [hdry, if_neg Bool.false_ne_true] at hresult hlaunches
          obtain ⟨args, rfl⟩ := command_of_prepare hprepare
          obtain ⟨why, _, hout⟩ | ⟨s', launch, runner, hlaunch, hadded,
            hreport, hout⟩ :=
            outcome_carryOut r host s₂ output rfl (some fun _ => false)
              progressText
          · rw [hout] at hresult hlaunches
            exact .unmade hrequested hprepare hresult (hlaunches.trans hbefore)
          · rw [hout] at hresult hlaunches
            have hreported : Run.Reported host.course launch.report := by
              have hpatient : Run.Patient (job host r.project.pieces
                  (Recording.program host :: args) (some fun _ => false)) := rfl
              rw [hreport]
              exact Run.reported_run rfl hpatient host.course runner
            refine .launched hrequested hprepare hdry hlaunch hreported hresult ?_
            rw [hlaunches, hadded, hbefore]
  · have hnone : ∀ s₁ r platform,
        ¬ Requested verbose path choice host s s₁ r platform :=
      fun s₁ r platform h => hcomes ⟨s₁, r, platform, h⟩
    obtain ⟨hresult, hlaunches⟩ := outcome_run_early hnone
    exact .early hnone hresult hlaunches

/-! ## Codes -/

/-- What the exit code of an export says. -/
structure ExitCodes (verbose : Bool) (path : String) (choice : ExportChoice)
    (host : Host) (s : Session) (x : Except Failure Nat × Session) : Prop where
  known : ∀ code, x.1 = .ok code → code ∈ [0, 1, 2, 130]
  success : x.1 = .ok 0 → ∃ s₁ s₂ r platform output command,
    Requested verbose path choice host s s₁ r platform ∧
    (r.prepare platform).outcome host s₁ = (.ok (output, command), s₂) ∧
    (choice.dryRun = true ∧ x.2.launches = s.launches ∨
      choice.dryRun = false ∧ ∃ launch, x.2.launches = s.launches ++ [launch] ∧
        Launches launch command ∧ host.course.refusal = none ∧
        host.course.exitCode = 0 ∧ .stop true ∉ launch.report.events)
  rejected : x.1 = .ok 2 ↔ ∃ s₁ r platform why,
    Requested verbose path choice host s s₁ r platform ∧
    (r.check.outcome host s₁).1 = .error (.validation (.rejected why))
  cancelled : x.1 = .ok 130 ↔ ∃ launch, x.2.launches = s.launches ++ [launch] ∧
    .stop true ∈ launch.report.events ∧ launch.report.result ≠ .error .tooLarge
  failed : ∀ launch e, x.2.launches = s.launches ++ [launch] →
    launch.report.result = .error e → e ≠ .cancelled → e ≠ .tooLarge → x.1 = .ok 1
  escaped : ∀ launch, x.2.launches = s.launches ++ [launch] →
    launch.report.result = .error .tooLarge → x.1 = .error (.run .tooLarge)

section Kinds

variable {x : Except Failure Nat × Session} {output : FilePath}
  {command : List String}

/-- Where nothing was launched, nothing was cancelled and nothing failed. -/
theorem ExitCodes.of_unlaunched (hlaunches : x.2.launches = s.launches)
    (hcancelled : x.1 ≠ .ok 130)
    (hknown : ∀ code, x.1 = .ok code → code ∈ [0, 1, 2, 130])
    (hsuccess : x.1 = .ok 0 → ∃ s₁ s₂ r platform output command,
      Requested verbose path choice host s s₁ r platform ∧
      (r.prepare platform).outcome host s₁ = (.ok (output, command), s₂) ∧
      choice.dryRun = true)
    (hrejected : x.1 = .ok 2 ↔ ∃ s₁ r platform why,
      Requested verbose path choice host s s₁ r platform ∧
      (r.check.outcome host s₁).1 = .error (.validation (.rejected why))) :
    ExitCodes verbose path choice host s x := by
  have hnone (launch : Launch) : x.2.launches ≠ s.launches ++ [launch] := by
    rw [hlaunches]
    exact fun heq => List.cons_ne_nil launch [] (List.self_eq_append_right.1 heq)
  refine ⟨hknown, fun hzero => ?_, hrejected, iff_of_false hcancelled ?_,
    fun launch _ h => absurd h (hnone launch),
    fun launch h => absurd h (hnone launch)⟩
  · obtain ⟨s₁, s₂, r, platform, output, command, hrequested, hprepare, hdry⟩ :=
      hsuccess hzero
    exact ⟨s₁, s₂, r, platform, output, command, hrequested, hprepare,
      .inl ⟨hdry, hlaunches⟩⟩
  · rintro ⟨launch, h, -⟩
    exact hnone launch h

theorem mem_codes {answer : Except Failure Answer} {code : Nat}
    (h : exitOf answer = .ok code) : code ∈ [0, 1, 2, 130] := by
  obtain rfl | ⟨rfl, _⟩ | ⟨rfl, _⟩ | ⟨rfl, _⟩ := exitOf_known h <;> decide

theorem exitOf_zero {answer : Except Failure Answer} (h : exitOf answer = .ok 0) :
    ∃ a, answer = .ok a := by
  obtain h | ⟨_, ha⟩ | ⟨h, _⟩ | ⟨h, _⟩ := exitOf_known h
  · cases h
  · exact ha
  · cases h
  · cases h

theorem exitOf_rejected {answer : Except Failure Answer}
    (h : exitOf answer = .ok 2) :
    ∃ why, answer = .error (.validation (.rejected why)) := by
  obtain h | ⟨h, _⟩ | ⟨_, hwhy⟩ | ⟨h, _⟩ := exitOf_known h
  · cases h
  · cases h
  · exact hwhy
  · cases h

theorem exitOf_cancelled {answer : Except Failure Answer}
    (h : exitOf answer = .ok 130) : answer = .error (.run .cancelled) := by
  obtain h | ⟨h, _⟩ | ⟨h, _⟩ | ⟨_, hanswer⟩ := exitOf_known h
  · cases h
  · cases h
  · cases h
  · exact hanswer

/-- What was prepared was not rejected. -/
theorem Requested.not_rejected
    (h : Requested verbose path choice host s s₁ r platform)
    (hprepare : (r.prepare platform).outcome host s₁ =
      (.ok (output, command), s₂)) :
    ¬ ∃ s₁ r platform why, Requested verbose path choice host s s₁ r platform ∧
      (r.check.outcome host s₁).1 = .error (.validation (.rejected why)) := by
  rw [h.rejected_iff, hprepare]
  rintro ⟨why, hwhy⟩
  cases hwhy

/-- The codes where the encoder was launched. -/
theorem ExitCodes.of_launched {launch : Launch}
    (hrequested : Requested verbose path choice host s s₁ r platform)
    (hprepare : (r.prepare platform).outcome host s₁ =
      (.ok (output, command), s₂))
    (hreal : r.dryRun = false) (hlaunch : Launches launch command)
    (hreported : Run.Reported host.course launch.report)
    (hresult : x.1 = exitOf ((launch.report.result.mapError .run).map
      fun _ => ⟨output, command, true⟩))
    (hlaunches : x.2.launches = s.launches ++ [launch]) :
    ExitCodes verbose path choice host s x := by
  have honly {launch' : Launch} (h : x.2.launches = s.launches ++ [launch']) :
      launch' = launch :=
    List.singleton_inj.1 (List.append_cancel_left (h.symm.trans hlaunches))
  constructor
  case known =>
    intro code hcode
    exact mem_codes (hresult.symm.trans hcode)
  case success =>
    intro hzero
    obtain ⟨a, ha⟩ := exitOf_zero (hresult.symm.trans hzero)
    cases htold : launch.report.result with
    | error e =>
        rw [htold] at ha
        cases ha
    | ok told =>
        exact ⟨s₁, s₂, r, platform, output, command, hrequested, hprepare,
          .inr ⟨hrequested.dryRun ▸ hreal, launch, hlaunches, hlaunch,
            hreported.succeeded told htold⟩⟩
  case rejected =>
    refine iff_of_false (fun htwo => ?_) (hrequested.not_rejected hprepare)
    obtain ⟨why, hwhy⟩ := exitOf_rejected (hresult.symm.trans htwo)
    cases hreport : launch.report.result with
    | ok told =>
        rw [hreport] at hwhy
        cases hwhy
    | error e =>
        rw [hreport] at hwhy
        cases hwhy
  case cancelled =>
    have hiff : x.1 = .ok 130 ↔ launch.report.result = .error .cancelled := by
      constructor
      · intro hcode
        have hcancelled := exitOf_cancelled (hresult.symm.trans hcode)
        cases hreport : launch.report.result with
        | ok told =>
            rw [hreport] at hcancelled
            cases hcancelled
        | error e =>
            rw [hreport] at hcancelled
            cases hcancelled
            rfl
      · intro hreport
        rw [hresult, hreport]
        rfl
    rw [hiff, hreported.cancelled_iff]
    constructor
    · exact fun h => ⟨launch, hlaunches, h⟩
    · rintro ⟨launch', hlaunches', h⟩
      rwa [honly hlaunches'] at h
  case failed =>
    intro launch' e hlaunches' he hne hrange
    rw [honly hlaunches'] at he
    rw [hresult, he]
    exact exitOf_failed ((hreported.fails e he).resolve_right hrange) hne
  case escaped =>
    intro launch' hlaunches' he
    rw [honly hlaunches'] at he
    rw [hresult, he]
    rfl

/-- Each exit code of an export is traced back to what was launched. -/
theorem export_exit_codes (verbose : Bool) (path : String) (choice : ExportChoice)
    (host : Host) (s : Session) : ExitCodes verbose path choice host s
      ((run ⟨verbose, .export path choice⟩).outcome host s) := by
  have hgoes := goes verbose path choice host s
  generalize (run ⟨verbose, .export path choice⟩).outcome host s = x at hgoes
  cases hgoes with
  | early hnone hresult hlaunches =>
      refine .of_unlaunched hlaunches ?_ ?_ ?_ ?_
      · obtain h | ⟨failure, h⟩ := hresult <;> simp [h]
      · obtain h | ⟨failure, h⟩ := hresult <;> simp [h]
      · obtain h | ⟨failure, h⟩ := hresult <;> simp [h]
      · obtain h | ⟨failure, h⟩ := hresult <;> simp [h, hnone]
  | unprepared hrequested hprepare hresult hlaunches =>
      refine .of_unlaunched hlaunches (fun hcode => ?_) (fun code hcode => ?_)
        (fun hcode => ?_) ?_
      · cases exitOf_cancelled (hresult.symm.trans hcode)
        exact (prepare_failsWith _ _ _ _ _ _ (Prod.ext hprepare rfl)).ne_run _ rfl
      · exact mem_codes (hresult.symm.trans hcode)
      · obtain ⟨a, ha⟩ := exitOf_zero (hresult.symm.trans hcode)
        cases ha
      · rw [hrequested.rejected_iff, hprepare]
        constructor
        · intro hcode
          obtain ⟨why, hwhy⟩ := exitOf_rejected (hresult.symm.trans hcode)
          exact ⟨why, congrArg Except.error (Except.error.inj hwhy)⟩
        · rintro ⟨why, hwhy⟩
          cases hwhy
          exact hresult
  | dry hrequested hprepare hdry hresult hlaunches =>
      refine .of_unlaunched hlaunches ?_ ?_ (fun _ => ?_) ?_
      · simp [hresult]
      · simp [hresult]
      · exact ⟨_, _, _, _, _, _, hrequested, hprepare, hrequested.dryRun ▸ hdry⟩
      · exact iff_of_false (by simp [hresult]) (hrequested.not_rejected hprepare)
  | unmade hrequested hprepare hresult hlaunches =>
      refine .of_unlaunched hlaunches (fun hcode => ?_) (fun code hcode => ?_)
        (fun hcode => ?_)
        (iff_of_false (fun hcode => ?_) (hrequested.not_rejected hprepare))
      · cases exitOf_cancelled (hresult.symm.trans hcode)
      · exact mem_codes (hresult.symm.trans hcode)
      · obtain ⟨a, ha⟩ := exitOf_zero (hresult.symm.trans hcode)
        cases ha
      · obtain ⟨why, hwhy⟩ := exitOf_rejected (hresult.symm.trans hcode)
        cases hwhy
  | launched hrequested hprepare hreal hlaunch hreported hresult hlaunches =>
      exact .of_launched hrequested hprepare hreal hlaunch hreported hresult
        hlaunches

end Kinds

/-! ## A request to stop that is lost -/

/-- The document of a recording of ten seconds that nothing was done to. -/
def plainMembers : List (String × Json) :=
  [("id", .null), ("screenVideoPath", .text "screen.mp4"), ("duration", .real 10),
    ("resolution", .object [("width", .int 1280), ("height", .int 720)]),
    ("edits", .object [("segments", .list [.object
      [("id", .null), ("startTime", .real 0), ("endTime", .real 10)]])])]

def plainTake : Project :=
  { Project.screenOnly 10 [⟨.null, 0, 10, true⟩] [] with
    name := .text ""
    resolution := ⟨1280, 720⟩
    edits := ⟨[⟨.null, 0, 10, true⟩], [], [], [], .standard, .standard⟩ }

theorem ofJson_plainMembers :
    Project.ofJson default (.object plainMembers) = .ok plainTake := rfl

theorem sound_plainMembers : (Json.object plainMembers).Sound := by
  have hsize : (Json.object [("width", .int 1280), ("height", .int 720)]).Sound :=
    .object (by simp)
      (by simp [Library.sound_pixels (n := 1280) (by decide),
        Library.sound_pixels (n := 720) (by decide)])
  have hsegment : (Json.object [("id", .null), ("startTime", .real 0),
      ("endTime", .real 10)]).Sound :=
    .object (by simp) (by simp)
  have hedits : (Json.object [("segments", .list [.object
      [("id", .null), ("startTime", .real 0), ("endTime", .real 10)]])]).Sound :=
    .object (by simp) (by simpa using .list (by simpa using hsegment))
  exact .object (by simp [plainMembers]) (by simp [plainMembers, hsize, hedits])

theorem pieces_plainTake : plainTake.pieces = [⟨0, 10, 1, none⟩] := by
  have hranges : plainTake.ranges = [⟨0, 10⟩] :=
    Range.sort_of_sorted (by decide +kernel) (List.pairwise_singleton _ _)
  rw [Project.pieces, Project.cutPieces, hranges,
    Edits.piecesOf_of_sorted (by decide +kernel)]
  decide +kernel

theorem compiles_plainTake : plainTake.Compiles .video := by
  constructor <;> simp [plainTake, Project.screenOnly, ifGiven, Json.truthy]

/-- A host that keeps no journal and whose encoder is asked to stop, and then
writes a number out of range. -/
def lateHost : Host :=
  { hostPrinting "" with
    settings := { Settings.standard ⟨.root, ["home"]⟩ with logFile := none }
    course := { Runner.boundless with steps := .stop :: Runner.boundless.steps } }

/-- The files of a recording and its project. -/
def takenFiles : FileTree where
  entries := [(["project.json"], .file (Json.write (.object plainMembers)).toUTF8),
    (["screen.mp4"], .file .empty)]

def toMovie : ExportChoice where
  output := "out.mp4"

/-- What breaks a run off counts more than that it was asked to stop. -/
theorem supervise_late {job : Run.Job} (hpatient : Run.Patient job)
    (htotal : job.total = some 10) :
    (Runner.supervise job lateHost.course).1.result = .error .tooLarge ∧
      .stop true ∈ (Runner.supervise job lateHost.course).1.events := by
  obtain ⟨read, hlived⟩ := Runner.supervise_lived job lateHost.course
  have hloud : ¬ Run.Quiet job lateHost.course.steps := by
    refine fun hquiet => hquiet .tooLarge (.tooLarge ?_
      (htotal.symm ▸ Runner.ofFields_countless))
    have hblocks : Run.blocks lateHost.course.steps =
        Run.blocks Runner.boundless.steps := rfl
    rw [hblocks, Runner.blocks_boundless]
    exact List.mem_singleton_self _
  constructor
  · obtain ⟨why, hblames, hresult⟩ := hlived.broken hloud
    cases hpatient.blames hblames
    exact hresult
  · -- What is read ends in a line, so it starts with the first step.
    obtain ⟨init, text, hread, -⟩ := hlived.account.readOf.broken hloud
    obtain ⟨rest, hrest⟩ := hlived.account.readOf.before
    rw [hlived.stop_true_iff]
    cases init with
    | nil =>
        rw [hread] at hrest
        cases hrest
    | cons first init =>
        rw [hread] at hrest
        obtain rfl : first = .stop := (List.cons.inj hrest).1
        exact ⟨[], _, hread, rfl⟩

theorem requested_late : ∃ s₁, s₁.files = takenFiles ∧
    Requested false "project.json" toMovie lateHost { files := takenFiles } s₁
      (toMovie.request plainTake) .other := by
  refine ⟨_, rfl, rfl, ⟨plainTake, ?_, rfl⟩, rfl⟩
  refine (Library.loadFrom_eq _ _ _).trans ?_
  change Library.parse default _ (Json.write (.object plainMembers)).toUTF8 =
    .ok plainTake
  rw [Library.parse,
    mapError_eq_ok.2 (Library.document_written sound_plainMembers), ok_bind]
  exact mapError_eq_ok.2 ofJson_plainMembers

theorem prepare_late {s : Session} (hfiles : s.files = takenFiles) :
    ∃ command s', ((toMovie.request plainTake).prepare .other).outcome
      lateHost s =
      (.ok (⟨.here, ["out.mp4"]⟩, command), s') := by
  have hcheck : (toMovie.request plainTake).check.outcome lateHost s =
      (.ok (), s) := by
    refine check_of_requirements ?_
    rw [hfiles]
    decide +kernel
  have houtput : (toMovie.request plainTake).outputPath.outcome lateHost s =
      (.ok ⟨.here, ["out.mp4"]⟩, s) := by
    rw [outputPath, outcome_bind_ok (outcome_read _ _)]
    rfl
  have hsound : ((hasSound plainTake.screen.display).outcome lateHost s).1 =
      .ok false := by
    rw [hasSound_result]
    rfl
  obtain ⟨args, hargs⟩ := (Command.args_ok_iff_of_succeeds
    (Graph.build_succeeds plainTake toMovie.options false) .other "out.mp4").2
    compiles_plainTake
  obtain ⟨s', hcommand⟩ :=
    exists_command (r := toMovie.request plainTake) hsound hargs
  refine ⟨Recording.program lateHost :: args, s', ?_⟩
  rw [prepare, outcome_bind_ok hcheck, outcome_bind_ok houtput]
  exact outcome_bind_ok hcommand _

/-- An export whose encoder was asked to stop in time breaks down
with no exit code. -/
theorem cancelled_breaks_down : ∃ launch,
    ((run ⟨false, .export "project.json" toMovie⟩).outcome lateHost
      { files := takenFiles }).2.launches = [launch] ∧
    .stop true ∈ launch.report.events ∧
    ((run ⟨false, .export "project.json" toMovie⟩).outcome lateHost
      { files := takenFiles }).1 = .error (.run .tooLarge) := by
  obtain ⟨s₁, hfiles, hrequested⟩ := requested_late
  obtain ⟨command, s₂, hprepare⟩ := prepare_late hfiles
  obtain ⟨hresult, hlaunches⟩ := outcome_run hrequested
  obtain ⟨args, rfl⟩ := command_of_prepare hprepare
  have hasked : Asked lateHost s₁ s₂ :=
    (prepare_asks (toMovie.request plainTake) .other lateHost).asked hprepare
  have hmade : s₂.files.makeDirectories ⟨.here, []⟩ = .ok s₂.files := by
    have hgrows := hasked.files.grows
    rw [hfiles] at hgrows
    exact FileTree.makeDirectories_of_look
      (FileTree.look_eq_ok_iff.2 ⟨[], hgrows.resolve rfl, rfl⟩)
  have htotal : some (Timeline.playTime plainTake.pieces) = some 10 := by
    rw [pieces_plainTake]
    decide +kernel
  rw [shownAnswer, outcome_answer hprepare, if_neg nofun] at hresult hlaunches
  obtain ⟨why, hunmade, _⟩ | ⟨s₃, launch, runner, _, hadded, hreport, hout⟩ :=
    outcome_carryOut (toMovie.request plainTake) lateHost s₂
      ⟨.here, ["out.mp4"]⟩ rfl
      (some fun _ => false) progressText
  · cases hmade.symm.trans hunmade
  · rw [hout] at hresult hlaunches
    have hproject : (toMovie.request plainTake).project = plainTake := rfl
    rw [Runner.run_started rfl rfl, hproject] at hreport
    have hpatient : Run.Patient (job lateHost plainTake.pieces
        (Recording.program lateHost :: args) (some fun _ => false)) := rfl
    obtain ⟨hlost, hstop⟩ := supervise_late hpatient htotal
    refine ⟨launch, ?_, ?_, ?_⟩
    · rw [hlaunches, hadded, hasked.launches, hrequested.launches,
        List.nil_append]
    · rw [hreport]
      exact hstop
    · rw [hresult, hreport, hlost]
      rfl

end Calls

end CommandLine

end Cutlist
