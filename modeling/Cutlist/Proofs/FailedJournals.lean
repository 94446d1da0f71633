import Cutlist.Proofs.JournalHandlers

/-!
# A journal that cannot be set up

There are two moments at which setting up a journal may fail. The level is
looked up before anything is touched, so if there is none of that name the
journal stays as it was. The file is opened when the level is set and the
handlers of the program are taken out and closed, and nothing puts them back:
from then on notes reach the handlers of others alone.

That is all that is lost. Whatever fails, the handlers of others stay, and so
does the list of those of the program, the closed ones and those in use taken
together (`Keeps`). A call that returns looks at nothing else of a journal, so
the next one sets it up as if none had failed.
-/

namespace Cutlist

open FileTree

namespace Journal

variable {j k : Journal} {c : Call} {why : Fault}

/-! ## Reasons to fail -/

theorem Level.value_eq_error {l : Level} (h : l.value = .error why) :
    ∃ name, l = .named name ∧ levels.lookup (Text.upper name) = none ∧
      why = .unknownLevel (Text.upper name) := by
  cases l with
  | number value => cases h
  | named name =>
      rw [value] at h
      split at h
      · cases h
      · next hnone => exact ⟨name, rfl, hnone, (Except.error.inj h).symm⟩

/-- Why a call fails, whatever the journal: there is no such level, or else
there is no way to the file, or a directory in its place. -/
inductive Call.Fails (c : Call) : Fault → Prop
  | level {name : String} (hname : c.level = .named name)
      (hnone : levels.lookup (Text.upper name) = none) :
      Fails c (.unknownLevel (Text.upper name))
  | path {value : Int} {name : String} {e : FileError}
      (hlevel : c.level.value = .ok value) (hgiven : c.given? = some name)
      (hpath : c.files.resolve (filePath c.files name) = .error e) :
      Fails c (.file e)
  | directory {value : Int} {name : String} {q : Place}
      (hlevel : c.level.value = .ok value) (hgiven : c.given? = some name)
      (hpath : c.files.resolve (filePath c.files name) = .ok q)
      (hentry : c.files.entry? q = some .directory) : Fails c (.file .isDirectory)

theorem fails_of_perform (h : (c.perform j).result = .error why) :
    c.Fails why := by
  rw [Call.perform, setUp] at h
  cases hlevel : c.level.value with
  | error e =>
      rw [hlevel] at h
      obtain ⟨name, hname, hnone, rfl⟩ := Level.value_eq_error hlevel
      cases h
      exact .level hname hnone
  | ok value =>
      rw [hlevel] at h
      dsimp only at h
      cases hgiven : c.file.filter (· != "") with
      | none =>
          rw [hgiven] at h
          cases h
      | some name =>
          rw [hgiven] at h
          dsimp only at h
          cases happend :
            c.files.append (filePath c.files name) ByteArray.empty with
          | ok t =>
              rw [happend] at h
              cases h
          | error e =>
              rw [happend] at h
              cases h
              rcases append_eq_error happend with hpath | ⟨q, hpath, hentry, rfl⟩
              · exact .path hlevel hgiven hpath
              · exact .directory hlevel hgiven hpath hentry

/-- What a failed call leaves of a journal. -/
def Call.remains (c : Call) (j : Journal) : Journal :=
  match c.level.value with
  | .error _ => j
  | .ok level =>
      { level := level
        handlers := j.foreign
        closed := j.closed ++ j.own }

theorem perform_of_file {value : Int} {name : String} {e : FileError}
    (hlevel : c.level.value = .ok value) (hgiven : c.given? = some name)
    (hfile : c.files.append (filePath c.files name) ByteArray.empty = .error e)
    (j : Journal) : c.perform j = ⟨.error (.file e), c.remains j, c.files⟩ := by
  rw [Call.given?] at hgiven
  rw [Call.perform, setUp, release_eq, hlevel]
  dsimp only
  rw [hgiven]
  dsimp only
  rw [hfile, Call.remains, hlevel]
  rfl

theorem perform_of_fails (h : c.Fails why) (j : Journal) :
    c.perform j = ⟨.error why, c.remains j, c.files⟩ := by
  cases h with
  | level hname hnone =>
      rw [Call.perform, setUp, Call.remains, hname, Level.value, hnone]
  | path hlevel hgiven hpath =>
      refine perform_of_file hlevel hgiven ?_ j
      rw [append, hpath]
      rfl
  | directory hlevel hgiven hpath hentry =>
      refine perform_of_file hlevel hgiven ?_ j
      rw [append, hpath]
      change (c.files.contentAt _ >>= fun _ => _) = _
      rw [contentAt, hentry]
      rfl

/-! ## What no failure loses -/

/-- A journal with the handlers of others, and with all handlers of the program
that are closed or in use. -/
structure Keeps (j k : Journal) : Prop where
  foreign : k.foreign = j.foreign
  closed : k.closed ++ k.own = j.closed ++ j.own

namespace Keeps

theorem refl (j : Journal) : Keeps j j := ⟨rfl, rfl⟩

theorem trans {i : Journal} (h : Keeps i j) (h' : Keeps j k) : Keeps i k :=
  ⟨h'.foreign.trans h.foreign, h'.closed.trans h.closed⟩

/-- Nothing else of a journal matters to a call that returns. -/
theorem perform (h : Keeps j k) (hok : (c.perform j).result = .ok ()) :
    (c.perform k).result = .ok () ∧
      (c.perform k).journal = (c.perform j).journal := by
  -- A reason to fail does not know the journal, so it would hold for both.
  have hok' : (c.perform k).result = .ok () := by
    cases hresult : (c.perform k).result with
    | ok _ => rfl
    | error why =>
        rw [perform_of_fails (fails_of_perform hresult)] at hok
        cases hok
  refine ⟨hok', ?_⟩
  obtain ⟨level, hlevel, hj⟩ := perform_eq_ok hok
  obtain ⟨level', hlevel', hk⟩ := perform_eq_ok hok'
  cases hlevel.symm.trans hlevel'
  rw [hj, hk, h.foreign, h.closed]

end Keeps

theorem own_of_foreign (level : Int) (closed : List Handler) :
    own { level := level, handlers := j.foreign, closed := closed } = [] :=
  List.filter_eq_nil_iff.2 fun h hmem => by simpa using (List.mem_filter.1 hmem).2

theorem keeps_remains (c : Call) (j : Journal) : Keeps j (c.remains j) := by
  rw [Call.remains]
  split
  · exact .refl j
  · refine ⟨?_, ?_⟩
    · exact List.filter_eq_self.2 fun h hmem => (List.mem_filter.1 hmem).2
    · rw [own_of_foreign, List.append_nil]

/-- A journal after calls of which each may have failed. -/
def performAll (j : Journal) (calls : List Call) : Journal :=
  calls.foldl (fun k c => (c.perform k).journal) j

theorem keeps_performAll {calls : List Call} (h : ∀ c ∈ calls, ∃ why, c.Fails why)
    (j : Journal) : Keeps j (performAll j calls) := by
  induction calls generalizing j with
  | nil => exact .refl j
  | cons c calls ih =>
      obtain ⟨hc, hcalls⟩ := List.forall_mem_cons.1 h
      obtain ⟨why, hwhy⟩ := hc
      have hstep : Keeps j (c.perform j).journal := by
        rw [perform_of_fails hwhy]
        exact keeps_remains c j
      exact hstep.trans (ih hcalls _)

/-! ## What a failure loses -/

theorem remains_of_level {name : String} (h : c.Fails (.unknownLevel name))
    (j : Journal) : c.remains j = j := by
  cases h with
  | level hname hnone => rw [Call.remains, hname, Level.value, hnone]

/-- The file is opened only where there is a level. -/
theorem remains_of_file {e : FileError} (h : c.Fails (.file e)) (j : Journal) :
    ∃ level, c.level.value = .ok level ∧ c.remains j =
      { level := level, handlers := j.foreign, closed := j.closed ++ j.own } := by
  have hlevel : ∃ level, c.level.value = .ok level := by
    cases h with
    | path hlevel => exact ⟨_, hlevel⟩
    | directory hlevel => exact ⟨_, hlevel⟩
  obtain ⟨level, hlevel⟩ := hlevel
  refine ⟨level, hlevel, ?_⟩
  rw [Call.remains, hlevel]

theorem closed_remains (c : Call) (j : Journal) :
    ∃ gone, (c.remains j).closed = j.closed ++ gone ∧
      ∀ h ∈ gone, h ∈ j.own ∧ h ∉ (c.remains j).handlers := by
  rw [Call.remains]
  split
  · exact ⟨[], (List.append_nil _).symm, List.forall_mem_nil _⟩
  · refine ⟨j.own, rfl, fun h hown => ⟨hown, fun hforeign => ?_⟩⟩
    have htrue : h.own = true := (List.mem_filter.1 hown).2
    have hfalse : (!h.own) = true := (List.mem_filter.1 hforeign).2
    rw [htrue] at hfalse
    cases hfalse

theorem foreign_eq_handlers_iff : j.foreign = j.handlers ↔ j.own = [] := by
  rw [foreign, own, List.filter_eq_self, List.filter_eq_nil_iff]
  simp

theorem remains_unchanged_iff (h : c.Fails why) :
    (c.remains j).level = j.level ∧ (c.remains j).handlers = j.handlers ↔
      (∃ name, why = .unknownLevel name) ∨
        (c.level.value = .ok j.level ∧ j.own = []) := by
  cases why with
  | unknownLevel name =>
      rw [remains_of_level h]
      exact iff_of_true ⟨rfl, rfl⟩ (.inl ⟨name, rfl⟩)
  | file e =>
      obtain ⟨level, hlevel, hremains⟩ := remains_of_file h j
      rw [hremains, hlevel, foreign_eq_handlers_iff]
      simp

/-! ## The main result -/

/-- A journal before and after a call that failed. -/
structure Failed (j : Journal) (c : Call) (why : Fault) (s : Setup) : Prop where
  cause : c.Fails why
  files : s.files = c.files
  /-- The handlers of others stay, in their order. -/
  foreign : s.journal.foreign = j.foreign
  /-- Only handlers of the program are closed, and none that is still in use. -/
  closed : ∃ gone, s.journal.closed = j.closed ++ gone ∧
    ∀ h ∈ gone, h ∈ j.own ∧ h ∉ s.journal.handlers
  /-- The level and the handlers are those of before exactly if there is no such
  level, or if there was nothing to lose. -/
  unchanged_iff : s.journal.level = j.level ∧ s.journal.handlers = j.handlers ↔
    (∃ name, why = .unknownLevel name) ∨
      (c.level.value = .ok j.level ∧ j.own = [])
  /-- A file that cannot be opened costs all handlers of the program. -/
  bereft : ∀ e, why = .file e →
    c.level.value = .ok s.journal.level ∧ s.journal.handlers = j.foreign
  /-- The next call that returns leaves nothing of it, whatever failed before. -/
  mended : ∀ (others : List Call) (last : Call),
    (∀ c ∈ others, ∃ why, c.Fails why) →
    (last.perform j).result = .ok () →
      (last.perform (performAll s.journal others)).result = .ok () ∧
        (last.perform (performAll s.journal others)).journal =
          (last.perform j).journal

theorem failed_of_perform (h : (c.perform j).result = .error why) :
    Failed j c why (c.perform j) := by
  have hfails := fails_of_perform h
  rw [perform_of_fails hfails]
  have hkeeps := keeps_remains c j
  exact {
    cause := hfails
    files := rfl
    foreign := hkeeps.foreign
    closed := closed_remains c j
    unchanged_iff := remains_unchanged_iff hfails
    bereft := by
      rintro e rfl
      obtain ⟨level, hlevel, hremains⟩ := remains_of_file hfails j
      rw [hremains]
      exact ⟨hlevel, rfl⟩
    mended := fun others last hothers hok =>
      (hkeeps.trans (keeps_performAll hothers _)).perform hok }

/-- A directory stands where the file should be. The console of others stays
and the two handlers around it are closed. -/
theorem failed_of_perform_directory :
    let j : Journal := { level := 20, handlers :=
      [⟨true, .file ⟨.root, ["a.log"]⟩, 20⟩, ⟨false, .console, 0⟩,
        ⟨true, .console, 30⟩] }
    let c : Call := ⟨some "logs", .named "debug",
      { entries := [(["logs"], .directory)] }⟩
    (c.perform j).result = .error (.file .isDirectory) ∧
      Failed j c (.file .isDirectory) (c.perform j) :=
  ⟨by decide +kernel, failed_of_perform (by decide +kernel)⟩

/-- A journal that notes down warnings on the console and in a file is to be set
up again, with a file in a directory that is missing. Afterwards its level is
another, it has no handler, and a warning is not noted down anywhere. -/
theorem missing_directory_silences :
    let first : Call := ⟨some "a.log", .named "info", { entries := [] }⟩
    let s := first.perform {}
    let second : Call := ⟨some "missing/b.log", .named "debug", s.files⟩
    let s' := second.perform s.journal
    let warned (j : Journal) :=
      j.write "TIME" ⟨"Test", warning, "hello"⟩ (s.files, "")
    s.result = .ok () ∧ s'.result = .error (.file .notFound) ∧
      s.journal.level = 20 ∧ s'.journal.level = 10 ∧
      s.journal.handlers = [⟨true, .file ⟨.root, ["a.log"]⟩, 20⟩,
        ⟨true, .console, 30⟩] ∧
      s'.journal.handlers = [] ∧ s'.journal.closed = s.journal.handlers ∧
      (warned s.journal).2 = "TIME - screenedit.Test - WARNING - hello\n" ∧
      (warned s'.journal).1.entries = s.files.entries ∧
        (warned s'.journal).2 = "" := by
  decide +kernel

end Journal

end Cutlist
