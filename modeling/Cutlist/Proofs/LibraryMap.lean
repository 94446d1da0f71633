import Cutlist.Proofs.Shelves

/-!
# A library is a map

Whatever has been asked of a library, every answer is the one that a map from
identifiers to projects gives: a project is loaded as it was last saved, a list
shows what is there, newest first, and what is not there is reported as such.

The map knows nothing of files, texts or times of asking. That it suffices rests
on two facts. What is below the directory of the library follows from the map
at every time, which each request preserves; and a project that was saved reads
back exactly, so that nothing of a file matters but its project.
-/

namespace Cutlist

namespace Library

/-- What is asked of a library. -/
inductive Request where
  | save (p : Project)
  | load (id : String)
  | delete (id : String)
  | list

/-- What comes of it. -/
inductive Answer where
  | saved (result : Except Fault FilePath)
  | loaded (result : Except Fault Project)
  | deleted (result : Except Fault Unit)
  | listed (found : Listing)

/-- What a request meets besides the files: the time, and the order in which the
file system gives the names in a directory. No two moments need agree on it. -/
structure Moment where
  now : Timestamp
  order : FileTree.Order

/-- The answer to a request, and the files that it leaves. -/
def answer (l : Library) (now : Timestamp) (t : FileTree) :
    Request → Answer × FileTree
  | .save p => let (r, t') := (l.save p).outcome t; (.saved r, t')
  | .load id => (.loaded (l.load t now id), t)
  | .delete id => let (r, t') := (l.delete id).outcome t; (.deleted r, t')
  | .list => (.listed (l.list t now), t)

/-- The answer to a request at some moment, and the files that it leaves. -/
def perform (l : Library) (m : Moment) (t : FileTree) (r : Request) :
    Answer × FileTree :=
  l.answer m.now (t.inOrder m.order) r

/-- The files after requests, each at a moment of its own. -/
def run (l : Library) (t : FileTree) (rs : List (Moment × Request)) :
    FileTree :=
  rs.foldl (fun t r => (l.perform r.1 t r.2).2) t

end Library

open Library

/-- The map after a request. -/
def Shelf.after (shelf : Shelf) : Request → Shelf
  | .save p => match p.id with
    | .text id => Function.update shelf id (some p)
    | _ => shelf
  | .delete id => Function.update shelf id none
  | .load _ | .list => shelf

/-- The map after requests, when nothing was kept at first. -/
def Shelf.afterAll (rs : List Request) : Shelf :=
  rs.foldl Shelf.after fun _ => none

/-- A project that was taken from a text, in universal time. -/
def Project.Taken (p : Project) : Prop :=
  ∃ now s doc, now.offset = 0 ∧ Json.read s = .ok doc ∧
    Project.ofJson now doc = .ok p

namespace Library

/-- A request about identifiers that the file system takes, and projects that
were taken from texts. -/
def Allows (l : Library) : Request → Prop
  | .save p => (∃ id, p.id = .text id ∧ l.Accepts id) ∧ p.Taken
  | .load id | .delete id => l.Accepts id
  | .list => True

/-- The answers of a map, and what becomes of the files: a request that only
asks leaves them as they are, and so does one that fails. A list is in the order
in which the file system gives the directories, where it is not that of time. -/
inductive Answers (l : Library) (shelf : Shelf) (t : FileTree) :
    Request → Answer × FileTree → Prop
  | save {p : Project} {id : String} {t' : FileTree} (hid : p.id = .text id) :
    Answers l shelf t (.save p) (.saved (.ok (l.fileOf id)), t')
  | load {id : String} {p : Project} (hp : shelf id = some p) :
    Answers l shelf t (.load id) (.loaded (.ok p), t)
  | loadNone {id : String} (hnone : shelf id = none) :
    Answers l shelf t (.load id) (.loaded (.error (.noProject id)), t)
  | delete {id : String} {p : Project} {t' : FileTree}
      (hp : shelf id = some p) :
    Answers l shelf t (.delete id) (.deleted (.ok ()), t')
  | deleteNone {id : String} (hnone : shelf id = none) :
    Answers l shelf t (.delete id) (.deleted (.error (.noProject id)), t)
  | list {names : List String} {pairs : List (String × Project)}
      (hnames : t.children l.directory = .ok names) (honce : names.Nodup)
      (hmem : ∀ id p, (id, p) ∈ pairs ↔ shelf id = some p)
      (horder : pairs.Pairwise (Precedes names)) :
    Answers l shelf t .list (.listed ⟨.ok (pairs.map (·.2)), []⟩, t)

variable {l : Library} {bare t : FileTree} {top : Place} {shelf : Shelf}
  {r : Request}

/-- What is kept does not depend on the order in which it is given. -/
theorem Holds.inOrder (h : l.Holds bare top shelf t) (order : FileTree.Order) :
    l.Holds bare top shelf (t.inOrder order) :=
  ⟨h.empty, ⟨h.outside.current, h.outside.entry⟩, h.inside, h.once, h.stored⟩

/-- One request: the map answers it, and still tells what the files are. -/
theorem Holds.answer (h : l.Holds bare top shelf t) (hr : l.Allows r)
    (now : Timestamp) :
    Answers l shelf t r (l.answer now t r) ∧
      l.Holds bare top (shelf.after r) (l.answer now t r).2 := by
  cases r with
  | save p =>
      obtain ⟨⟨id, hid, haccepts⟩, _, _, _, hnow, hread, hp⟩ := hr
      obtain ⟨t', hsave, hholds⟩ :=
        h.save haccepts hid (Project.stored_of_read hnow hread hp)
      rw [Library.answer, hsave, Shelf.after, hid]
      exact ⟨.save hid, hholds⟩
  | load id =>
      refine ⟨?_, h⟩
      rw [Library.answer]
      cases hp : shelf id with
      | none =>
          rw [h.load_none hr hp]
          exact .loadNone hp
      | some p =>
          rw [h.load hp]
          exact .load hp
  | delete id =>
      rw [Library.answer, Shelf.after]
      cases hp : shelf id with
      | none =>
          have hsame : Function.update shelf id none = shelf := by
            rw [← hp, Function.update_eq_self]
          rw [h.delete_none hr hp, hsame]
          exact ⟨.deleteNone hp, h⟩
      | some p =>
          obtain ⟨t', hdelete, hholds⟩ := h.delete hp
          rw [hdelete]
          exact ⟨.delete hp, hholds⟩
  | list =>
      refine ⟨?_, h⟩
      obtain ⟨names, pairs, hnames, honce, horder, hmem, hlist⟩ := h.list now
      rw [Library.answer, hlist]
      exact .list hnames honce hmem horder

/-- All requests: the map still tells what the files are. -/
theorem Holds.run {rs : List (Moment × Request)}
    (h : l.Holds bare top shelf t) (hrs : ∀ r ∈ rs, l.Allows r.2) :
    l.Holds bare top ((rs.map (·.2)).foldl Shelf.after shelf) (l.run t rs) := by
  induction rs generalizing shelf t with
  | nil => exact h
  | cons r rs ih =>
      obtain ⟨hr, hrest⟩ := List.forall_mem_cons.1 hrs
      exact ih ((h.inOrder r.1.order).answer hr r.1.now).2 hrest

/-- After any requests to a library that was empty, the next one is answered as
by a map from identifiers to projects, whatever the order in which the file
system gives what is there. -/
theorem answers_of_run (hempty : l.Empty t top)
    {before : List (Moment × Request)} (hbefore : ∀ r ∈ before, l.Allows r.2)
    (hr : l.Allows r) (m : Moment) :
    Answers l (Shelf.afterAll (before.map (·.2)))
      ((l.run t before).inOrder m.order) r (l.perform m (l.run t before) r) :=
  ((((holds_of_empty hempty).run hbefore).inOrder m.order).answer hr m.now).1

/-- A library in a directory with nothing in it. -/
def recordings : FileTree := { entries := [(["recordings"], .directory)] }

/-- A moment at which directories are given by name. -/
def firstMoment : Moment := ⟨default, .byName⟩

theorem empty_recordings :
    Library.Empty ⟨.ofString "recordings"⟩ recordings ["recordings"] := by
  refine ⟨by decide, by decide, fun q hq => ?_⟩
  obtain ⟨r, hr, rfl⟩ := FileTree.isBelow_iff.1 hq
  rw [FileTree.entry?_of_ne_nil (by simp)]
  simpa [recordings] using hr

/-- The document of a project with the identifier `tour`. -/
def tour : Json :=
  .object [("id", .text "tour"), ("screenVideoPath", .text "screen.mp4"),
    ("duration", .int 60),
    ("resolution", .object [("width", .int 1280), ("height", .int 720)])]

/-- A project that was saved is loaded as it was when another, which was never
there, has been deleted. -/
theorem answers_of_run_tour :
    ∃ p, Project.ofJson default tour = .ok p ∧
      (perform ⟨.ofString "recordings"⟩ firstMoment
        (run ⟨.ofString "recordings"⟩ recordings
          [(firstMoment, .save p), (firstMoment, .delete "other")])
        (.load "tour")).1 = .loaded (.ok p) := by
  have haccepts : ∀ id ∈ ["tour", "other"],
      Library.Accepts ⟨.ofString "recordings"⟩ id := by
    simp only [List.forall_mem_cons]
    exact ⟨⟨by decide, by decide, by decide, by decide, by decide, by decide,
        by decide⟩, ⟨by decide, by decide, by decide, by decide, by decide,
        by decide, by decide⟩, List.forall_mem_nil _⟩
  have hsize : (Json.object [("width", .int 1280), ("height", .int 720)]).Sound :=
    .object (by simp) (by
      simp [Json.Sound.int (n := 1280) (by decide +kernel),
        Json.Sound.int (n := 720) (by decide +kernel)])
  have hsound : tour.Sound := .object (by simp) (by
    simp [hsize, Json.Sound.int (n := 60) (by decide +kernel)])
  cases hp : Project.ofJson default tour with
  | error fault =>
      have hok : (Project.ofJson default tour).toOption.isSome = true := by
        decide +kernel
      rw [hp] at hok
      cases hok
  | ok p =>
      refine ⟨p, rfl, ?_⟩
      have hid : p.id = .text "tour" := by
        obtain ⟨ms, es, hms, htaken⟩ := Project.takenFrom_of_ofJson hp
        cases hms
        exact (Except.ok.inj htaken.id).symm
      have htaken : p.Taken :=
        ⟨default, _, tour, by decide, Json.read_write hsound, hp⟩
      have hbefore : ∀ r ∈ [(firstMoment, Request.save p),
          (firstMoment, .delete "other")],
          Library.Allows ⟨.ofString "recordings"⟩ r.2 := by
        simp only [List.forall_mem_cons]
        exact ⟨⟨⟨"tour", hid, haccepts _ (by simp)⟩, htaken⟩,
          haccepts _ (by simp), List.forall_mem_nil _⟩
      have hanswer := answers_of_run empty_recordings hbefore
        (r := .load "tour") (haccepts _ (by simp)) firstMoment
      have hshelf : Shelf.afterAll [.save p, .delete "other"] "tour" =
          some p := by
        simp [Shelf.afterAll, Shelf.after, hid]
      generalize perform _ _ _ _ = answer at hanswer ⊢
      cases hanswer with
      | load hp' =>
          cases hshelf.symm.trans hp'
          rfl
      | loadNone hnone => exact nomatch hshelf.symm.trans hnone

end Library

end Cutlist
