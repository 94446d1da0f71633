import Cutlist.Proofs.Inquiries

/-!
# A journal that is set up again and again

The command line sets the journal up, and a service may do so once more. Each
time the handlers of the program are taken out of a list that also holds those
of others, and new ones are added. If one stayed behind, every note would be
written twice from then on. None does: whatever was called before, the handlers
of the program are those of the last call, all before them are closed, and those
of others stand as they stood at first.

The run lemma behind this looks at the closed handlers and those in use
together. Every call leaves that list as it was and appends what it makes, so
nothing that was ever made is lost, and only the last call has handlers that are
still in use. They come after those of others, and so what they write is added
to what others have written: to the console at most once, and to a file at most
once.
-/

namespace Cutlist

open FileTree

namespace Journal

/-! ## Calls -/

/-- A call of `setUp`, with the files that it finds. -/
structure Call where
  file : Option String
  level : Level
  files : FileTree

namespace Call

def perform (c : Call) (j : Journal) : Setup := setUp c.file c.level c.files j

/-- The name of the file, if one is given. -/
def given? (c : Call) : Option String := c.file.filter (· != "")

/-- The handlers for a file at the level that was asked for, if there is a file,
and for the console. -/
def handlers (c : Call) (level : Int) : List Handler :=
  (c.given?.map fun name => ⟨true, .file (filePath c.files name), level⟩).toList
    ++ [⟨true, .console, warning⟩]

/-- The handlers that a call makes, which are none if there is no such level. -/
def made (c : Call) : List Handler :=
  match c.level.value with
  | .error _ => []
  | .ok level => c.handlers level

theorem own_of_mem_handlers {c : Call} {level : Int} {h : Handler}
    (hmem : h ∈ c.handlers level) : h.own = true := by
  rw [handlers] at hmem
  cases hgiven : c.given? with
  | none =>
      rw [hgiven] at hmem
      rw [List.mem_singleton.1 hmem]
  | some name =>
      rw [hgiven] at hmem
      rcases List.mem_cons.1 hmem with rfl | hlast
      · rfl
      · rw [List.mem_singleton.1 hlast]

end Call

/-- The handlers of the program. -/
def own (j : Journal) : List Handler := j.handlers.filter (·.own)

/-- The handlers of others. -/
def foreign (j : Journal) : List Handler := j.handlers.filter (!·.own)

/-- Calls that all return lead from one journal to another. -/
inductive Leads (j : Journal) : List Call → Journal → Prop
  | none : Leads j [] j
  | next {k : Journal} {calls : List Call} {c : Call} (h : Leads j calls k)
      (hok : (c.perform k).result = .ok ()) :
      Leads j (calls ++ [c]) (c.perform k).journal

variable {j k : Journal} {c : Call}

/-! ## What one call does -/

theorem perform_eq_ok (h : (c.perform j).result = .ok ()) :
    ∃ level, c.level.value = .ok level ∧ (c.perform j).journal =
      { level := level
        handlers := j.foreign ++ c.handlers level
        closed := j.closed ++ j.own } := by
  rw [Call.perform, setUp] at h ⊢
  cases hlevel : c.level.value with
  | error why =>
      rw [hlevel] at h
      cases h
  | ok level =>
      rw [hlevel, release_eq] at h
      rw [release_eq]
      refine ⟨level, rfl, ?_⟩
      rw [Call.handlers, Call.given?]
      dsimp only at h ⊢
      cases hfile : c.file.filter (· != "") with
      | none => rfl
      | some name =>
          rw [hfile] at h
          dsimp only at h ⊢
          cases happend :
            c.files.append (filePath c.files name) ByteArray.empty with
          | error why =>
              rw [happend] at h
              cases h
          | ok t =>
              dsimp only [attach]
              rw [List.append_assoc]
              rfl

section Perform

variable (h : (c.perform j).result = .ok ())
include h

theorem level_of_perform :
    c.level.value = .ok (c.perform j).journal.level := by
  obtain ⟨level, hlevel, hjournal⟩ := perform_eq_ok h
  rw [hjournal, hlevel]

theorem closed_of_perform :
    (c.perform j).journal.closed = j.closed ++ j.own := by
  obtain ⟨level, -, hjournal⟩ := perform_eq_ok h
  rw [hjournal]

theorem handlers_of_perform : (c.perform j).journal.handlers =
    j.foreign ++ c.handlers (c.perform j).journal.level := by
  obtain ⟨level, -, hjournal⟩ := perform_eq_ok h
  rw [hjournal]

theorem foreign_of_perform : (c.perform j).journal.foreign = j.foreign := by
  have hnone : (c.handlers (c.perform j).journal.level).filter (!·.own) = [] :=
    List.filter_eq_nil_iff.2 fun x hx => by simp [Call.own_of_mem_handlers hx]
  rw [foreign, handlers_of_perform h, List.filter_append, hnone, List.append_nil,
    foreign, List.filter_filter]
  simp only [Bool.and_self]

theorem own_of_perform :
    (c.perform j).journal.own = c.handlers (c.perform j).journal.level := by
  have hnone : j.foreign.filter (·.own) = [] :=
    List.filter_eq_nil_iff.2 fun x hx => by simpa using (List.mem_filter.1 hx).2
  have hall : (c.handlers (c.perform j).journal.level).filter (·.own) =
      c.handlers (c.perform j).journal.level :=
    List.filter_eq_self.2 fun x hx => Call.own_of_mem_handlers hx
  rw [own, handlers_of_perform h, List.filter_append, hnone, hall,
    List.nil_append]

theorem own_of_perform_eq_made : (c.perform j).journal.own = c.made := by
  rw [own_of_perform h, Call.made, level_of_perform h]

end Perform

/-! ## What any number of calls do -/

namespace Leads

theorem foreign_eq {calls : List Call} (h : Leads j calls k) :
    k.foreign = j.foreign := by
  induction h with
  | none => rfl
  | next _ hok ih => rw [foreign_of_perform hok, ih]

/-- The handlers of the program that are closed or in use are those there were at
first and those that were made, each once and in that order. -/
theorem closed_append_own {calls : List Call} (h : Leads j calls k) :
    k.closed ++ k.own = j.closed ++ j.own ++ calls.flatMap Call.made := by
  induction h with
  | none => simp
  | next _ hok ih =>
      rw [closed_of_perform hok, own_of_perform_eq_made hok, ih,
        List.flatMap_append, List.flatMap_singleton, ← List.append_assoc]

theorem last {earlier : List Call} (h : Leads j (earlier ++ [c]) k) :
    ∃ i, Leads j earlier i ∧ (c.perform i).result = .ok () ∧
      k = (c.perform i).journal := by
  generalize hcalls : earlier ++ [c] = calls at h
  cases h with
  | none => simp at hcalls
  | @next i calls c' h hok =>
      obtain ⟨rfl, hlast⟩ := List.append_inj' hcalls rfl
      cases hlast
      exact ⟨i, h, hok, rfl⟩

end Leads

/-! ## What a note adds -/

/-- Between two states of the files and of the text on the console a line was
added at most once to the console and at most once to each file. -/
structure AddsOnce (line : String) (s s' : FileTree × String) : Prop where
  shown : s'.2 = s.2 ∨ s'.2 = s.2 ++ line
  files : ∀ q, entry? s'.1 q = entry? s.1 q ∨
    ∃ old, contentAt s.1 q = .ok old ∧
      entry? s'.1 q = some (.file (old ++ line.toUTF8))

namespace AddsOnce

variable {line : String} {s s' : FileTree × String}

theorem refl (line : String) (s : FileTree × String) : AddsOnce line s s :=
  ⟨.inl rfl, fun _ => .inl rfl⟩

theorem file (line : String) (path : FilePath) (s : FileTree × String) :
    AddsOnce line s ((Destination.file path).write line s) := by
  obtain ⟨t, shown⟩ := s
  refine ⟨.inl rfl, fun r => ?_⟩
  rw [Destination.write]
  cases happend : t.append path line.toUTF8 with
  | error why => exact .inl rfl
  | ok t' =>
      obtain ⟨q, old, -, hold, rfl⟩ := append_eq_ok happend
      have hne := ne_nil_of_entry (contentAt_ne_directory hold)
      change entry? (t.put q _) r = _ ∨ ∃ old, _ ∧ entry? (t.put q _) r = _
      rw [entry?_put hne]
      split
      · next hr =>
          rw [hr]
          exact .inr ⟨old, hold, rfl⟩
      · exact .inl rfl

/-- The console comes after a file, which leaves the text on it alone. -/
theorem console (h : AddsOnce line s s') (hshown : s'.2 = s.2) :
    AddsOnce line s (Destination.console.write line s') := by
  obtain ⟨t', shown'⟩ := s'
  exact ⟨.inr (congrArg (· ++ line) hshown), h.files⟩

end AddsOnce

/-- Handlers write one after the other. -/
theorem write_append (k : Journal) (hs hs' : List Handler) (time : String)
    (n : Note) (s : FileTree × String) :
    { k with handlers := hs ++ hs' }.write time n s =
      { k with handlers := hs' }.write time n
        ({ k with handlers := hs }.write time n s) := by
  have htakes (hs : List Handler) :
      { k with handlers := hs }.takes n.level = k.takes n.level := rfl
  simp only [write, htakes]
  split
  · rw [List.filter_append, List.foldl_append]
  · rfl

/-- What the handlers of a call do, whichever of them take the note. -/
theorem addsOnce_handlers (k : Journal) (c : Call) (level : Int) (time : String)
    (n : Note) (s : FileTree × String) : AddsOnce (line time n) s
      ({ k with handlers := c.handlers level }.write time n s) := by
  rw [write]
  split
  · rw [List.foldl_filter, Call.handlers, List.foldl_append]
    generalize hs' : List.foldl _ s _ = s'
    have hfile : AddsOnce (line time n) s s' ∧ s'.2 = s.2 := by
      subst hs'
      cases c.given? with
      | none => exact ⟨.refl _ s, rfl⟩
      | some name =>
          dsimp only [Option.map, Option.toList, List.foldl_cons, List.foldl_nil]
          split
          · exact ⟨.file _ _ s, rfl⟩
          · exact ⟨.refl _ s, rfl⟩
    dsimp only [List.foldl_cons, List.foldl_nil]
    split
    · exact hfile.1.console hfile.2
    · exact hfile.1
  · exact .refl _ s

/-! ## The main result -/

/-- A journal after calls that all returned, and the one before them. -/
structure Settled (j : Journal) (earlier : List Call) (last : Call)
    (k : Journal) : Prop where
  level : last.level.value = .ok k.level
  /-- One handler for the file, if one is given, and one for the console. -/
  own : k.own =
    (last.given?.map fun name =>
      ⟨true, .file (filePath last.files name), k.level⟩).toList
        ++ [⟨true, .console, warning⟩]
  closed : k.closed = j.closed ++ j.own ++ earlier.flatMap Call.made
  foreign : k.foreign = j.foreign
  /-- A note adds a line at most once to what others write. -/
  once : ∀ time n s, AddsOnce (line time n)
    ({ k with handlers := j.foreign }.write time n s) (k.write time n s)

theorem setUps_settle {earlier : List Call} {last : Call}
    (h : Leads j (earlier ++ [last]) k) : Settled j earlier last k := by
  obtain ⟨i, hearlier, hok, rfl⟩ := h.last
  refine ⟨level_of_perform hok, own_of_perform hok, ?_, h.foreign_eq, ?_⟩
  · rw [closed_of_perform hok, hearlier.closed_append_own]
  · intro time n s
    have hhandlers := handlers_of_perform hok
    rw [hearlier.foreign_eq] at hhandlers
    have hwrite := write_append (last.perform i).journal j.foreign
      (last.handlers (last.perform i).journal.level) time n s
    rw [← hhandlers] at hwrite
    rw [hwrite]
    exact addsOnce_handlers _ last _ time n _

/-- A console of others stays through both calls. The file that was there at
first and the one of the first call are closed. -/
theorem setUps_settle_twice : Settled
    { handlers := [⟨true, .file ⟨.root, ["old.log"]⟩, 10⟩, ⟨false, .console, 0⟩] }
    [⟨some "a.log", .named "debug", { entries := [] }⟩]
    ⟨some "b.log", .number 20, { entries := [] }⟩
    { level := 20
      handlers := [⟨false, .console, 0⟩, ⟨true, .file ⟨.root, ["b.log"]⟩, 20⟩,
        ⟨true, .console, 30⟩]
      closed := [⟨true, .file ⟨.root, ["old.log"]⟩, 10⟩,
        ⟨true, .file ⟨.root, ["a.log"]⟩, 10⟩, ⟨true, .console, 30⟩] } := by
  refine setUps_settle ?_
  have hfirst := Leads.next
    (c := ⟨some "a.log", .named "debug", { entries := [] }⟩)
    (Leads.none (j := { handlers :=
      [⟨true, .file ⟨.root, ["old.log"]⟩, 10⟩, ⟨false, .console, 0⟩] }))
    (by decide +kernel)
  exact hfirst.next (by decide +kernel)

end Journal

end Cutlist
