import Cutlist.Session
import Cutlist.Proofs.FileChanges

/-!
# What an action comes to

An action of a session is followed step by step: each step has an outcome and
leaves a session, and the first failure is the last step. Running the encoder
is one step. It writes the files of its course, and what it notes down may be
written to files as well; in either way the tree of files only grows.
-/

namespace Cutlist

open Session

variable {α β : Type} {host : Host} {s s' : Session}

namespace Action

theorem outcome_bind (a : Action α) (f : α → Action β) :
    (a >>= f).outcome host s =
      match a.outcome host s with
      | (.ok x, s') => (f x).outcome host s'
      | (.error failure, s') => (.error failure, s') := by
  simp only [outcome, ReaderT.run_bind, ExceptT.run_bind, StateT.run_bind]
  rcases (a.run host).run.run s with ⟨result, s'⟩
  cases result <;> rfl

theorem outcome_bind_ok {a : Action α} {x : α}
    (h : a.outcome host s = (.ok x, s')) (f : α → Action β) :
    (a >>= f).outcome host s = (f x).outcome host s' := by
  rw [outcome_bind, h]

theorem outcome_bind_error {a : Action α} {failure : Failure}
    (h : a.outcome host s = (.error failure, s')) (f : α → Action β) :
    (a >>= f).outcome host s = (.error failure, s') := by
  rw [outcome_bind, h]

/-- What came to something did so step by step. -/
theorem outcome_bind_eq_ok {a : Action α} {f : α → Action β} {y : β}
    (h : (a >>= f).outcome host s = (.ok y, s')) :
    ∃ x s₁, a.outcome host s = (.ok x, s₁) ∧
      (f x).outcome host s₁ = (.ok y, s') := by
  rw [outcome_bind] at h
  rcases houtcome : a.outcome host s with ⟨failure | x, s₁⟩
  · rw [houtcome] at h
    cases h
  · rw [houtcome] at h
    exact ⟨x, s₁, rfl, h⟩

/-- What follows sees an action only by its outcome. -/
theorem outcome_bind_congr {a b : Action α} {t : Session}
    (h : a.outcome host s = b.outcome host t) (f : α → Action β) :
    (a >>= f).outcome host s = (b >>= f).outcome host t := by
  rw [outcome_bind, outcome_bind, h]

end Action

namespace Session

open Cutlist.Action

theorem outcome_read (host : Host) (s : Session) :
    (read : Action Host).outcome host s = (.ok host, s) := rfl

theorem outcome_get (host : Host) (s : Session) :
    (get : Action Session).outcome host s = (.ok s, s) := rfl

theorem outcome_attempt (a : Action α) :
    (attempt a).outcome host s =
      (.ok (a.outcome host s).1, (a.outcome host s).2) := rfl

theorem outcome_ofExcept {ε : Type} (failure : ε → Failure) (r : Except ε α) :
    (ofExcept failure r).outcome host s = (r.mapError failure, s) := by
  cases r <;> rfl

theorem outcome_ofExcept_ok {ε : Type} {r : Except ε α} {a : α} (h : r = .ok a)
    (failure : ε → Failure) :
    (ofExcept failure r).outcome host s = (.ok a, s) := by
  rw [outcome_ofExcept, h]
  rfl

theorem outcome_ofExcept_error {ε : Type} {r : Except ε α} {e : ε}
    (h : r = .error e) (failure : ε → Failure) :
    (ofExcept failure r).outcome host s = (.error (failure e), s) := by
  rw [outcome_ofExcept, h]
  rfl

theorem outcome_look (op : FileTree → Except FileError α) :
    (look op).outcome host s = ((op s.files).mapError .file, s) :=
  outcome_ofExcept .file (op s.files)

theorem outcome_change_ok {op : FileTree → Except FileError FileTree}
    {t : FileTree} (h : op s.files = .ok t) :
    (change op).outcome host s = (.ok (), { s with files := t }) := by
  have hlook : (look op).outcome host s = (.ok t, s) := by
    rw [outcome_look, h]
    rfl
  exact outcome_bind_ok hlook _

theorem outcome_change_error {op : FileTree → Except FileError FileTree}
    {why : FileError} (h : op s.files = .error why) :
    (change op).outcome host s = (.error (.file why), s) := by
  have hlook : (look op).outcome host s = (.error (.file why), s) := by
    rw [outcome_look, h]
    rfl
  exact outcome_bind_error hlook _

end Session

/-! ## What the encoder leaves -/

open FileTree

theorem Journal.Destination.write_grows (line : String) (d : Destination)
    (t : FileTree) (shown : String) : t.Grows (d.write line (t, shown)).1 := by
  cases d with
  | console => exact .refl t
  | other name => exact .refl t
  | file path => exact grows_getD fun _ => append_grows

theorem Journal.write_grows (j : Journal) (time : String) (n : Note)
    (t : FileTree) (shown : String) :
    t.Grows (j.write time n (t, shown)).1 := by
  rw [Journal.write]
  split
  · generalize j.handlers.filter _ = handlers
    induction handlers generalizing t shown with
    | nil => exact .refl t
    | cons h hs ih =>
        exact (h.destination.write_grows _ t shown).trans (ih _ _)
  · exact .refl t

namespace Session

open Cutlist.Action

/-- A note is always taken down, one way or another. -/
theorem outcome_note (host : Host) (s : Session) (n : Note) :
    ∃ s', (note n).outcome host s = (.ok (), s') ∧ s.files.Grows s'.files ∧
      s'.launches = s.launches :=
  ⟨_, rfl, s.journal.write_grows host.clock n s.files s.said, rfl⟩

theorem outcome_notes (host : Host) (s : Session) (ns : List Note) :
    ∃ s', (ns.forM note).outcome host s = (.ok (), s') ∧
      s.files.Grows s'.files ∧ s'.launches = s.launches := by
  induction ns generalizing s with
  | nil => exact ⟨s, rfl, .refl _, rfl⟩
  | cons n ns ih =>
      obtain ⟨s', hnote, hgrows, hlaunches⟩ := outcome_note host s n
      obtain ⟨s'', hnotes, hgrows', hlaunches'⟩ := ih s'
      refine ⟨s'', ?_, hgrows.trans hgrows', hlaunches'.trans hlaunches⟩
      change (note n >>= fun _ => ns.forM note).outcome host s = _
      rw [outcome_bind_ok hnote, hnotes]

theorem created_grows (t : FileTree) (path : FilePath) (content : ByteArray) :
    t.Grows (created t path content) :=
  (grows_getD fun _ => makeDirectories_grows).trans
    (grows_getD fun _ => write_grows)

theorem filesAfter_grows (course : Run.Course) (report : Run.Report)
    (t : FileTree) : t.Grows (filesAfter course report t) := by
  rw [filesAfter]
  split
  · generalize course.creates = creates
    induction creates generalizing t with
    | nil => exact .refl t
    | cons c cs ih => exact (created_grows t c.1 c.2).trans (ih _)
  · exact .refl t

/-- The encoder succeeds or fails as its process does, and the command that it was
started with is on record. -/
theorem outcome_encode_shown (host : Host) (s : Session) (job : Run.Job)
    (shown : Run.Progress → String) :
    ∃ s', (encode job shown).outcome host s =
        (((s.runner.run job host.course).1.result).mapError .run, s') ∧
      s.files.Grows s'.files ∧
      ((s.runner.run job host.course).1.notes = [] → s'.files =
        filesAfter host.course (s.runner.run job host.course).1 s.files) ∧
      s'.launches = s.launches ++
        (s.runner.run job host.course).1.started.toList.map
        fun command => ⟨command, s.files, (s.runner.run job host.course).1⟩ := by
  let report := (s.runner.run job host.course).1
  let ran : Session := { s with
    runner := (s.runner.run job host.course).2
    launches := s.launches ++
      report.started.toList.map fun command => ⟨command, s.files, report⟩
    files := filesAfter host.course report s.files
    said := s.said ++ String.join (report.heard.map shown) }
  obtain ⟨s', hnotes, hgrows, hlaunches⟩ :=
    outcome_notes host ran report.notes
  refine ⟨s', ?_, (filesAfter_grows ..).trans hgrows, fun hnone => ?_, hlaunches⟩
  · change ((report.notes.forM note >>= fun _ =>
      ofExcept .run report.result : Action String)).outcome host ran = _
    rw [outcome_bind_ok hnotes, outcome_ofExcept]
  · have hnone' : report.notes = [] := hnone
    rw [hnone'] at hnotes
    cases hnotes
    rfl

theorem outcome_encode (host : Host) (s : Session) (job : Run.Job) :
    ∃ s', (encode job).outcome host s =
        (((s.runner.run job host.course).1.result).mapError .run, s') ∧
      s.files.Grows s'.files ∧
      ((s.runner.run job host.course).1.notes = [] → s'.files =
        filesAfter host.course (s.runner.run job host.course).1 s.files) := by
  obtain ⟨s', hencode, hgrows, hfiles, _⟩ :=
    outcome_encode_shown host s job fun _ => ""
  exact ⟨s', hencode, hgrows, hfiles⟩

end Session

end Cutlist
