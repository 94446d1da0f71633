import Cutlist.Proofs.Outcomes

/-!
# Asking about media files

Before anything is exported, the media files of a project are asked about. That
should leave everything as it was, and it does so up to a note: a probe that
fails is noted down, every handler of the journal takes the note, and so the
files of the journal grow. What remains is a call of the prober.

This is said once, by a relation between the session before and the one after,
and carried through every action that only looks, asks and takes notes.
-/

namespace Cutlist

open FileTree

/-! ## What notes do to files -/

namespace Journal

variable {j : Journal} {t t' : FileTree} {q : Place}

/-- A handler of the journal writes to what is at a place. -/
def WritesTo (j : Journal) (t : FileTree) (q : Place) : Prop :=
  ∃ h ∈ j.handlers, ∃ path, h.destination = .file path ∧ t.resolve path = .ok q

/-- Two trees that differ only in the files of the journal, which grow. -/
structure Lengthens (j : Journal) (t t' : FileTree) : Prop where
  grows : t.Grows t'
  alike : t.Alike t'
  same : ∀ q, ¬ j.WritesTo t q → t'.entry? q = t.entry? q

theorem writesTo_iff_of_alike (h : t.Alike t') :
    j.WritesTo t' q ↔ j.WritesTo t q := by
  simp only [WritesTo, h.resolve_iff]

namespace Lengthens

theorem refl (j : Journal) (t : FileTree) : j.Lengthens t t :=
  ⟨.refl t, .refl t, fun _ _ => rfl⟩

theorem trans {t'' : FileTree} (h : j.Lengthens t t')
    (h' : j.Lengthens t' t'') : j.Lengthens t t'' := by
  refine ⟨h.grows.trans h'.grows, h.alike.trans h'.alike, fun q hq => ?_⟩
  have hq' : ¬ j.WritesTo t' q := (writesTo_iff_of_alike h.alike).not.2 hq
  rw [h'.same q hq', h.same q hq]

/-- Where the files of the journal are there, nothing is made. -/
theorem eq_none (h : j.Lengthens t t')
    (hthere : ∀ q, j.WritesTo t q → t.entry? q ≠ none)
    (hnone : t.entry? q = none) : t'.entry? q = none := by
  rw [h.same q fun hq => hthere q hq hnone, hnone]

end Lengthens

theorem lengthens_append {h : Handler} (hmem : h ∈ j.handlers)
    {path : FilePath} (hfile : h.destination = .file path)
    {line : ByteArray} (happend : t.append path line = .ok t') :
    j.Lengthens t t' := by
  obtain ⟨q, old, hq, hold, rfl⟩ := append_eq_ok happend
  have hentry := contentAt_ne_directory hold
  refine ⟨append_grows happend, alike_put_file hentry (old ++ line),
    fun r hr => ?_⟩
  have hne : r ≠ q := by
    rintro rfl
    exact hr ⟨h, hmem, path, hfile, hq⟩
  rw [entry?_put (ne_nil_of_entry hentry), if_neg hne]

theorem lengthens_destination {h : Handler} (hmem : h ∈ j.handlers)
    (line : String) (t : FileTree) (shown : String) :
    j.Lengthens t (h.destination.write line (t, shown)).1 := by
  cases hdestination : h.destination with
  | console => exact .refl j t
  | other name => exact .refl j t
  | file path =>
      rw [Destination.write]
      cases happend : t.append path line.toUTF8 with
      | error why => exact .refl j t
      | ok t' => exact lengthens_append hmem hdestination happend

theorem lengthens_write (j : Journal) (time : String) (n : Note)
    (t : FileTree) (shown : String) :
    j.Lengthens t (j.write time n (t, shown)).1 := by
  rw [Journal.write]
  split
  · have hmem : ∀ h ∈ j.handlers.filter fun h => decide (h.level ≤ n.level),
        h ∈ j.handlers := fun h hh => (List.mem_filter.1 hh).1
    revert hmem
    generalize (j.handlers.filter fun h => decide (h.level ≤ n.level)) = handlers
    induction handlers generalizing t shown with
    | nil => exact fun _ => .refl j t
    | cons h hs ih =>
        intro hmem
        obtain ⟨hfirst, hrest⟩ := List.forall_mem_cons.1 hmem
        exact (lengthens_destination hfirst _ t shown).trans (ih _ _ hrest)
  · exact .refl j t

end Journal

/-! ## Sessions that only ask -/

namespace Session

open Cutlist.Action

variable {α β : Type} {host : Host} {s s' : Session}

/-- The program that judges media files: the one that is set, else the one that
is found, else its name. -/
def prober (host : Host) : String :=
  ((host.settings.ffprobe.filter (· != "")).orElse fun _ =>
    (host.which "ffprobe").filter (· != "")).getD "ffprobe"

/-- A session and one after it between which only media files were asked about
and notes were taken. -/
structure Asked (host : Host) (s s' : Session) : Prop where
  runner : s'.runner = s.runner
  launches : s'.launches = s.launches
  journal : s'.journal = s.journal
  complained : s'.complained = s.complained
  calls : ∃ more, s'.calls = s.calls ++ more ∧ ∀ c ∈ more,
    ∃ q path, c.command = MediaProbe.command (prober host) q path
  files : s.journal.Lengthens s.files s'.files

namespace Asked

theorem refl (host : Host) (s : Session) : Asked host s s :=
  ⟨rfl, rfl, rfl, rfl, ⟨[], (List.append_nil _).symm, List.forall_mem_nil _⟩,
    .refl s.journal s.files⟩

theorem trans {s'' : Session} (h : Asked host s s') (h' : Asked host s' s'') :
    Asked host s s'' := by
  obtain ⟨more, hmore, hprober⟩ := h.calls
  obtain ⟨more', hmore', hprober'⟩ := h'.calls
  have hfiles := h'.files
  rw [h.journal] at hfiles
  refine ⟨h'.runner.trans h.runner, h'.launches.trans h.launches,
    h'.journal.trans h.journal, h'.complained.trans h.complained,
    ⟨more ++ more', ?_, List.forall_mem_append.2 ⟨hprober, hprober'⟩⟩,
    h.files.trans hfiles⟩
  rw [hmore', hmore, List.append_assoc]

end Asked

/-- An action that only asks and takes notes, whatever comes of it. -/
def Asks (host : Host) (a : Action α) : Prop :=
  ∀ s, Asked host s (a.outcome host s).2

namespace Asks

theorem asked {a : Action α} {result : Except Failure α} (ha : Asks host a)
    (houtcome : a.outcome host s = (result, s')) : Asked host s s' := by
  have hs := ha s
  rwa [houtcome] at hs

theorem pure (x : α) : Asks host (Pure.pure x : Action α) :=
  fun s => .refl host s

theorem throw (failure : Failure) : Asks host (throw failure : Action α) :=
  fun s => .refl host s

theorem read : Asks host (read : Action Host) := fun s => .refl host s

theorem get : Asks host (get : Action Session) := fun s => .refl host s

theorem ofExcept {ε : Type} (failure : ε → Failure) (r : Except ε α) :
    Asks host (ofExcept failure r) := by
  cases r with
  | ok a => exact .pure a
  | error e => exact .throw (failure e)

theorem bind {a : Action α} {f : α → Action β} (ha : Asks host a)
    (hf : ∀ x, Asks host (f x)) : Asks host (a >>= f) := by
  intro s
  rw [outcome_bind]
  rcases houtcome : a.outcome host s with ⟨failure | x, s'⟩
  · exact ha.asked houtcome
  · exact (ha.asked houtcome).trans (hf _ s')

theorem note (n : Note) : Asks host (note n) := fun s =>
  ⟨rfl, rfl, rfl, rfl, ⟨[], (List.append_nil _).symm, List.forall_mem_nil _⟩,
    s.journal.lengthens_write host.clock n s.files s.said⟩

end Asks

/-! ## Questions -/

section Questions

variable {limit : Option Binary64} {q : MediaProbe.Question} {path : String}
variable {answer : Json → Except MediaProbe.Trouble α}

/-- The call that a question makes. -/
def callFor (host : Host) (limit : Option Binary64) (q : MediaProbe.Question)
    (path : String) : MediaProbe.Call :=
  ⟨MediaProbe.command (prober host) q path,
    limit.getD host.settings.probeTimeout⟩

/-- What is done with the answer to a question. -/
def settleAnswer (q : MediaProbe.Question) (path : String) :
    Except MediaProbe.Trouble α → Action (Option α)
  | .ok a => return some a
  | .error trouble =>
      if q.passesOver trouble then do
        warn "MediaIO" (q.warning path trouble)
        return none
      else throw (.probe trouble)

/-- What a question comes to with an answer, or with none. -/
def verdict (q : MediaProbe.Question) :
    Except MediaProbe.Trouble α → Except Failure (Option α)
  | .ok a => .ok (some a)
  | .error trouble =>
      if q.passesOver trouble then .ok none else .error (.probe trouble)

theorem outcome_inquire (limit : Option Binary64) (q : MediaProbe.Question)
    (path : String) (answer : Json → Except MediaProbe.Trouble α) (host : Host)
    (s : Session) :
    (inquire limit q path answer).outcome host s =
      (settleAnswer q path ((host.probe q path).document
        (callFor host limit q path) >>= answer)).outcome host
        { s with calls := s.calls ++ [callFor host limit q path] } := by
  have hanswer : (inquire limit q path answer).outcome host s =
      (match (host.probe q path).document (callFor host limit q path) >>= answer with
        | .ok a => Pure.pure (some a)
        | .error trouble =>
            if q.passesOver trouble then do
              warn "MediaIO" (q.warning path trouble)
              return none
            else MonadExcept.throw (.probe trouble) :
              Action (Option α)).outcome host
        { s with calls := s.calls ++ [callFor host limit q path] } := rfl
  rw [hanswer]
  cases (host.probe q path).document (callFor host limit q path)
    >>= answer <;> rfl

/-- What a question comes to is decided by the answer alone. -/
theorem inquire_result (limit : Option Binary64) (q : MediaProbe.Question)
    (path : String) (answer : Json → Except MediaProbe.Trouble α) (host : Host)
    (s : Session) :
    ((inquire limit q path answer).outcome host s).1 =
      verdict q ((host.probe q path).document (callFor host limit q path) >>=
        answer) := by
  rw [outcome_inquire]
  cases (host.probe q path).document (callFor host limit q path) >>= answer with
  | ok a => rfl
  | error trouble =>
      by_cases hpass : q.passesOver trouble = true
      · simp only [settleAnswer, verdict, if_pos hpass]
        rfl
      · simp only [settleAnswer, verdict, if_neg hpass]
        rfl

theorem inquire_asks (limit : Option Binary64) (q : MediaProbe.Question)
    (path : String) (answer : Json → Except MediaProbe.Trouble α) :
    Asks host (inquire limit q path answer) := by
  intro s
  have hcall : Asked host s
      { s with calls := s.calls ++ [callFor host limit q path] } :=
    ⟨rfl, rfl, rfl, rfl, ⟨_, rfl, List.forall_mem_singleton.2 ⟨q, path, rfl⟩⟩,
      .refl s.journal s.files⟩
  have hsettle (x : Except MediaProbe.Trouble α) :
      Asks host (settleAnswer q path x) := by
    rw [settleAnswer.eq_def]
    split
    · exact .pure _
    · split
      · exact .bind (.note _) fun _ => .pure none
      · exact .throw _
  rw [outcome_inquire]
  exact hcall.trans (hsettle _ _)

theorem hasSound_result (path : String) (limit : Option Binary64) (host : Host)
    (s : Session) : ((hasSound path limit).outcome host s).1 =
      (verdict .sound ((host.probe .sound path).document
        (callFor host limit .sound path) >>= MediaProbe.sound)).map
          (·.getD false) := by
  rw [← inquire_result limit .sound path MediaProbe.sound host s, hasSound,
    outcome_bind]
  rcases (inquire limit .sound path MediaProbe.sound).outcome host s with
    ⟨failure | b, s'⟩ <;> rfl

theorem hasSound_asks (path : String) (limit : Option Binary64) :
    Asks host (hasSound path limit) :=
  .bind (inquire_asks limit .sound path MediaProbe.sound) fun _ => .pure _

end Questions

end Session

end Cutlist
