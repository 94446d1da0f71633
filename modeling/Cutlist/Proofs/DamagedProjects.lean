import Cutlist.Proofs.NumbersInRange
import Cutlist.Proofs.Shelves

/-!
# Projects that cannot be read

A look at all projects passes over one that cannot be read and goes on to the
next. It does so for the faults that are laid to the file of a project: that it
is missing, is no text or no JSON, or holds a document of another shape. Three
faults are not among them: a path that is too long, a directory in the place of
the file, and a number out of range. One project with such a fault ends the look,
and none of the others is listed.
-/

namespace Cutlist

open FileTree

namespace FileTree

variable {t : FileTree} {p : FilePath} {q : Place} {why : FileError}

theorem walk_error {names : List String} (h : t.walk q names = .error why) :
    FileError.isAbsence why = true ∨ why = .tooLong := by
  induction names generalizing q with
  | nil => cases h
  | cons name names ih =>
      rw [walk] at h
      cases hentry : t.entry? q with
      | none =>
          rw [hentry] at h
          cases h
          exact .inl rfl
      | some e =>
          rw [hentry] at h
          cases e with
          | file content =>
              cases h
              exact .inl rfl
          | directory =>
              dsimp only at h
              split at h
              · exact ih h
              split at h
              · cases h
                exact .inr rfl
              · exact ih h

theorem look_error (h : t.look p = .error why) :
    FileError.isAbsence why = true ∨ why = .tooLong := by
  rw [look] at h
  cases hresolve : t.resolve p with
  | ok q =>
      rw [hresolve, ok_bind] at h
      cases hentry : t.entry? q with
      | some e => rw [hentry] at h; cases h
      | none =>
          rw [hentry] at h
          cases h
          exact .inl rfl
  | error why' =>
      rw [hresolve] at h
      cases h
      rw [resolve] at hresolve
      split at hresolve
      · cases hresolve
        exact .inl rfl
      split at hresolve
      · cases hresolve
        exact .inr rfl
      · exact walk_error hresolve

/-- A look at a path finds something or nothing, or the path is too long. -/
theorem look_cases (t : FileTree) (p : FilePath) :
    (∃ e, t.look p = .ok e ∧ t.look? p = .ok (some e)) ∨
    (∃ why ≠ .tooLong, t.look p = .error why ∧ t.look? p = .ok none) ∨
    (t.look p = .error .tooLong ∧ t.look? p = .error .tooLong) := by
  cases h : t.look p with
  | ok e =>
      refine .inl ⟨e, rfl, ?_⟩
      rw [look?, h]
  | error why =>
      rcases look_error h with habsent | rfl
      · refine .inr (.inl ⟨why, ?_, rfl, ?_⟩)
        · rintro rfl
          cases habsent
        · rw [look?, h]
          exact if_pos habsent
      · refine .inr (.inr ⟨rfl, ?_⟩)
        rw [look?, h]
        rfl

end FileTree

namespace Library

variable {t : FileTree} {now : Timestamp} {path : FilePath}
  {paths : List FilePath}

/-! ## Loading -/

/-- The file that is read for the project at a path. -/
def fileAt (t : FileTree) (path : FilePath) : FilePath :=
  match t.look path with
  | .ok .directory => path.child fileName
  | _ => path

/-- What loading comes to: a file is read, and whatever else is
found is a fault. -/
theorem loadFrom_eq (t : FileTree) (now : Timestamp) (path : FilePath) :
    loadFrom t now path = match t.look (fileAt t path) with
      | .ok (.file bytes) => parse now (fileAt t path) bytes
      | .ok .directory => .error (.file .isDirectory)
      | .error .tooLong => .error (.file .tooLong)
      | .error _ => .error (.noFile (fileAt t path)) := by
  -- The one path for which no file is chosen is its own file, and too long as such.
  have hfile : projectFile t path = .ok (fileAt t path) ∨
      t.look path = .error .tooLong ∧ fileAt t path = path ∧
        projectFile t path = .error .tooLong := by
    rw [projectFile, isDirectory, fileAt]
    rcases look_cases t path with ⟨e, hlook, hlook?⟩ |
      ⟨why, hwhy, hlook, hlook?⟩ | ⟨hlook, hlook?⟩
    · rw [hlook, hlook?]
      cases e <;> exact .inl rfl
    · rw [hlook, hlook?]
      exact .inl rfl
    · rw [hlook, hlook?]
      exact .inr ⟨rfl, rfl, rfl⟩
  rcases hfile with hfile | ⟨hlook, hsame, hfile⟩
  · rw [loadFrom, mapError_eq_ok.2 hfile, ok_bind]
    unfold FileTree.has FileTree.read
    rcases look_cases t (fileAt t path) with ⟨e, hlook, hlook?⟩ |
      ⟨why, hwhy, hlook, hlook?⟩ | ⟨hlook, hlook?⟩
    · rw [hlook, hlook?]
      cases e <;> rfl
    · rw [hlook, hlook?]
      cases why <;> first | rfl | exact absurd rfl hwhy
    · rw [hlook, hlook?]
      rfl
  · rw [loadFrom, hfile, hsame, hlook]
    rfl

/-- Why a project cannot be read, in the ways that are not laid to its file. -/
inductive Breaks (t : FileTree) (now : Timestamp) (path : FilePath) : Prop
  | unreachable (h : t.look (fileAt t path) = .error .tooLong)
  | directory (h : t.look (fileAt t path) = .ok .directory)
  | outOfRange {bytes : ByteArray} {doc : Json} {fault : Document.Fault}
      (h : t.look (fileAt t path) = .ok (.file bytes))
      (hdoc : document bytes = .ok doc)
      (hfault : Project.ofJson now doc = .error fault)
      (hrange : fault.isOutOfRange = true)

theorem isOfProject_documentFault (path : FilePath) (fault : Document.Fault) :
    (documentFault path fault).isOfProject = !fault.isOutOfRange := by
  cases fault with
  | number error => cases error <;> rfl
  | missing | notObject | notText | noMembers | noItems | timestamp | position => rfl

theorem parse_breaks_iff {bytes : ByteArray} :
    (∃ fault, parse now path bytes = .error fault ∧ fault.isOfProject = false) ↔
      ∃ doc fault, document bytes = .ok doc ∧
        Project.ofJson now doc = .error fault ∧ fault.isOutOfRange = true := by
  rw [parse]
  cases hdoc : document bytes with
  | error why =>
      constructor
      · rintro ⟨_, ⟨⟩, hfault⟩
        cases hfault
      · rintro ⟨_, _, ⟨⟩, _⟩
  | ok doc =>
      rw [mapError_eq_ok.2 rfl, ok_bind]
      cases hproject : Project.ofJson now doc with
      | ok p =>
          constructor
          · rintro ⟨_, ⟨⟩, _⟩
          · rintro ⟨_, _, ⟨⟩, h, _⟩
            cases hproject.symm.trans h
      | error why =>
          constructor
          · rintro ⟨_, ⟨⟩, hfault⟩
            rw [isOfProject_documentFault, Bool.not_eq_false'] at hfault
            exact ⟨doc, why, rfl, hproject, hfault⟩
          · rintro ⟨_, _, ⟨⟩, h, hrange⟩
            cases hproject.symm.trans h
            refine ⟨_, rfl, ?_⟩
            rw [isOfProject_documentFault, hrange]
            rfl

/-- Loading fails in a way that is not laid to the project exactly when it
breaks. -/
theorem loadFrom_breaks_iff (t : FileTree) (now : Timestamp) (path : FilePath) :
    (∃ fault, loadFrom t now path = .error fault ∧ fault.isOfProject = false) ↔
      Breaks t now path := by
  rw [loadFrom_eq]
  constructor
  · rintro ⟨fault, h, hfault⟩
    cases hlook : t.look (fileAt t path) with
    | ok e =>
        rw [hlook] at h
        cases e with
        | directory => exact .directory hlook
        | file bytes =>
            obtain ⟨doc, why, hdoc, hwhy, hrange⟩ :=
              parse_breaks_iff.1 ⟨fault, h, hfault⟩
            exact .outOfRange hlook hdoc hwhy hrange
    | error why =>
        rw [hlook] at h
        cases why with
        | tooLong => exact .unreachable hlook
        | _ => cases h; cases hfault
  · rintro (hlook | hlook | ⟨hlook, hdoc, hwhy, hrange⟩)
    · rw [hlook]
      exact ⟨_, rfl, rfl⟩
    · rw [hlook]
      exact ⟨_, rfl, rfl⟩
    · rw [hlook]
      exact parse_breaks_iff.2 ⟨_, _, hdoc, hwhy, hrange⟩

/-- A file never breaks when its numbers are in range, whatever else is in it. -/
theorem not_breaks_of_inRange {bytes : ByteArray}
    (hlook : t.look (fileAt t path) = .ok (.file bytes))
    (hrange : ∀ doc, document bytes = .ok doc → doc.InRange) :
    ¬ Breaks t now path := by
  rintro (h | h | ⟨h, hdoc, hfault, hout⟩)
  · cases hlook.symm.trans h
  · cases hlook.symm.trans h
  · cases hlook.symm.trans h
    have hreads := Document.reads_project now (hrange _ hdoc)
    rw [hfault] at hreads
    cases hreads.symm.trans hout

/-! ## Listing -/

/-- An entry of the library's directory that ends a look at all projects. -/
def Stops (t : FileTree) (now : Timestamp) (path : FilePath) : Prop :=
  (∀ content, t.look path ≠ .ok (.file content)) ∧ Breaks t now path

/-- The project in a directory, if it can be read. -/
def project? (t : FileTree) (now : Timestamp) (path : FilePath) :
    Option Project :=
  match t.look path, loadFrom t now path with
  | .ok .directory, .ok p => some p
  | _, _ => none

/-- A directory that is passed over, and why. -/
def damage? (t : FileTree) (now : Timestamp) (path : FilePath) :
    Option (FilePath × Fault) :=
  match t.look path, loadFrom t now path with
  | .ok .directory, .error fault => some (path, fault)
  | _, _ => none

theorem project?_eq_some_iff {p : Project} : project? t now path = some p ↔
    t.look path = .ok .directory ∧ loadFrom t now path = .ok p := by
  rw [project?]
  split <;> simp_all

theorem damage?_eq_some_iff {x : FilePath × Fault} :
    damage? t now path = some x ↔ t.look path = .ok .directory ∧
      path = x.1 ∧ loadFrom t now path = .error x.2 := by
  rw [damage?]
  split <;> simp_all [Prod.ext_iff]

theorem isDirectory_of_look {e : Entry} (h : t.look path = .ok e) :
    t.isDirectory path = .ok (decide (e = .directory)) := by
  rw [isDirectory, look?, h]
  cases e <;> rfl

theorem isDirectory_of_absent {why : FileError} (h : t.look path = .error why)
    (hwhy : why ≠ .tooLong) : t.isDirectory path = .ok false := by
  rw [isDirectory, look?, h]
  have habsent := (look_error h).resolve_right hwhy
  dsimp only
  rw [if_pos habsent]
  rfl

theorem fileAt_of_error {why : FileError} (h : t.look path = .error why) :
    fileAt t path = path := by
  rw [fileAt, h]

theorem map_nothing (result : Except Fault (List Project)) :
    result.map (([] : List Project) ++ ·) = result := by
  cases result <;> rfl

/-- An entry that does not end the look adds to what is found after it. -/
theorem visit_cons (h : ¬ Stops t now path) : visit t now (path :: paths) =
    ⟨(visit t now paths).result.map ((project? t now path).toList ++ ·),
      (damage? t now path).toList ++ (visit t now paths).skipped⟩ := by
  rw [visit, project?, damage?]
  cases hlook : t.look path with
  | ok e =>
      rw [isDirectory_of_look hlook]
      cases e with
      | file content => exact congrArg (Listing.mk · _) (map_nothing _).symm
      | directory =>
          cases hload : loadFrom t now path with
          | ok p => rfl
          | error fault =>
              have hfault : fault.isOfProject = true := by
                by_contra hnot
                refine h ⟨fun content hfile => ?_,
                  (loadFrom_breaks_iff t now path).1
                  ⟨fault, hload, eq_false_of_ne_true hnot⟩⟩
                cases hlook.symm.trans hfile
              refine (if_pos hfault).trans ?_
              exact congrArg (Listing.mk · _) (map_nothing _).symm
  | error why =>
      have hwhy : why ≠ .tooLong := by
        rintro rfl
        refine h ⟨fun content hfile => ?_, .unreachable ?_⟩
        · cases hlook.symm.trans hfile
        · rw [fileAt_of_error hlook, hlook]
      rw [isDirectory_of_absent hlook hwhy]
      exact congrArg (Listing.mk · _) (map_nothing _).symm

theorem visit_stops (paths : List FilePath) (h : Stops t now path) :
    ∃ fault, (visit t now (path :: paths)).result = .error fault := by
  obtain ⟨hfile, hbreaks⟩ := h
  obtain ⟨fault, hload, hfault⟩ := (loadFrom_breaks_iff t now path).2 hbreaks
  rw [visit]
  cases hlook : t.look path with
  | ok e =>
      rw [isDirectory_of_look hlook]
      cases e with
      | file content => exact absurd hlook (hfile content)
      | directory =>
          rw [hload]
          exact ⟨fault, congrArg Listing.result
            (if_neg (ne_true_of_eq_false hfault))⟩
  | error why =>
      have hwhy : why = .tooLong := by
        rw [loadFrom_eq, fileAt_of_error hlook, hlook] at hload
        cases why with
        | tooLong => rfl
        | _ => cases hload; cases hfault
      have hdirectory : t.isDirectory path = .error .tooLong := by
        rw [isDirectory, look?, hlook, hwhy]
        rfl
      rw [hdirectory]
      exact ⟨_, rfl⟩

/-- Entries none of which ends the look give all projects that can be read, and
what is wrong with the others. -/
theorem visit_eq (h : ∀ path ∈ paths, ¬ Stops t now path) :
    visit t now paths =
      ⟨.ok (paths.filterMap (project? t now)),
        paths.filterMap (damage? t now)⟩ := by
  induction paths with
  | nil => rfl
  | cons path paths ih =>
      obtain ⟨hpath, hrest⟩ := List.forall_mem_cons.1 h
      rw [visit_cons hpath, ih hrest, List.filterMap_cons, List.filterMap_cons]
      cases project? t now path <;> cases damage? t now path <;> rfl

theorem visit_ok_iff : (∃ ps, (visit t now paths).result = .ok ps) ↔
    ∀ path ∈ paths, ¬ Stops t now path := by
  constructor
  · intro h
    induction paths with
    | nil => exact List.forall_mem_nil _
    | cons path paths ih =>
        obtain ⟨ps, hps⟩ := h
        by_cases hstops : Stops t now path
        · obtain ⟨fault, hfault⟩ := visit_stops paths hstops
          cases hfault.symm.trans hps
        · rw [visit_cons hstops] at hps
          refine List.forall_mem_cons.2 ⟨hstops, ih ?_⟩
          cases hrest : (visit t now paths).result with
          | ok rest => exact ⟨rest, rfl⟩
          | error fault => rw [hrest] at hps; cases hps
  · intro h
    rw [visit_eq h]
    exact ⟨_, rfl⟩

/-- What a look at all projects of a library gives when any of them may be
damaged. -/
structure Listed (l : Library) (t : FileTree) (now : Timestamp) (top : Place) :
    Prop where
  ok_iff : (∃ ps, (l.list t now).result = .ok ps) ↔
    ∀ name, t.entry? (top ++ [name]) ≠ none →
      ¬ Stops t now (l.directory.child name)
  readable : (∃ ps, (l.list t now).result = .ok ps) →
    ∃ (names : List String) (pairs : List (String × Project)),
      t.children l.directory = .ok names ∧ names.Nodup ∧
      pairs.Pairwise (Precedes names) ∧
      (∀ name p, (name, p) ∈ pairs ↔ t.entry? (top ++ [name]) ≠ none ∧
        t.look (l.directory.child name) = .ok .directory ∧
        loadFrom t now (l.directory.child name) = .ok p) ∧
      (l.list t now).result = .ok (pairs.map (·.2))
  skipped : (∃ ps, (l.list t now).result = .ok ps) →
    ∀ path fault, (path, fault) ∈ (l.list t now).skipped ↔
      ∃ name, t.entry? (top ++ [name]) ≠ none ∧ path = l.directory.child name ∧
        t.look path = .ok .directory ∧ loadFrom t now path = .error fault
  breaks_iff : ∀ path, Breaks t now path ↔
    ∃ fault, loadFrom t now path = .error fault ∧ fault.isOfProject = false
  inRange : ∀ path bytes, t.look (fileAt t path) = .ok (.file bytes) →
    (∀ doc, document bytes = .ok doc → doc.InRange) → ¬ Breaks t now path

variable {l : Library} {top : Place}

/-- A look at all projects gives exactly those that can be read, the newest
first, unless one of them cannot be read in a way that is not laid to it. -/
theorem list_readable (hresolve : t.resolve l.directory = .ok top)
    (hdirectory : t.entry? top = some .directory) (honce : t.OnceBelow top)
    (now : Timestamp) : Listed l t now top := by
  obtain ⟨names, hnames, hnodup, hmem⟩ :=
    children_eq_ok hresolve hdirectory honce
  have hlist := list_eq hresolve hdirectory hnames now
  have hok : (∃ ps, (l.list t now).result = .ok ps) ↔
      ∀ path ∈ names.map l.directory.child, ¬ Stops t now path := by
    rw [hlist, ← visit_ok_iff]
    cases (visit t now (names.map l.directory.child)).result with
    | ok ps => exact ⟨fun _ => ⟨_, rfl⟩, fun _ => ⟨_, rfl⟩⟩
    | error fault => exact ⟨nofun, nofun⟩
  refine ⟨?_, fun h => ?_, fun h path fault => ?_,
    fun path => (loadFrom_breaks_iff t now path).symm,
    fun path bytes => not_breaks_of_inRange⟩
  · simp only [hok, List.forall_mem_map, hmem]
  · obtain ⟨pairs, hprecedes, hpairs, hsorted⟩ := exists_newestFirst names
      fun name => project? t now (l.directory.child name)
    refine ⟨names, pairs, hnames, hnodup, hprecedes, fun name p => ?_, ?_⟩
    · rw [hpairs, hmem, project?_eq_some_iff]
    · rw [hlist, visit_eq (hok.1 h), ← hsorted, List.filterMap_map]
      rfl
  · rw [hlist, visit_eq (hok.1 h), List.mem_filterMap]
    constructor
    · rintro ⟨_, hpath, hdamage⟩
      obtain ⟨name, hname, rfl⟩ := List.mem_map.1 hpath
      obtain ⟨hlook, rfl, hload⟩ := damage?_eq_some_iff.1 hdamage
      exact ⟨name, (hmem name).1 hname, rfl, hlook, hload⟩
    · rintro ⟨name, hname, rfl, hlook, hload⟩
      exact ⟨_, List.mem_map_of_mem ((hmem name).2 hname),
        damage?_eq_some_iff.2 ⟨hlook, rfl, hload⟩⟩

/-- A document with a width of its own. -/
def sized (width : Json) : List (String × Json) :=
  [("id", .text "x"), ("screenVideoPath", .text "screen.mp4"),
    ("duration", .real 0),
    ("resolution", .object [("width", width), ("height", .int 720)])]

theorem sound_pixels {n : Int} (h : n.natAbs < 10 ^ 4) : (Json.int n).Sound := by
  have hdigits : 10 ^ 4 ≤ 10 ^ Decimal.maxDigits :=
    Nat.pow_le_pow_right (by decide) (by decide)
  exact .int (h.trans_le hdigits)

theorem sound_sized {width : Json} (h : width.Sound) :
    (Json.object (sized width)).Sound := by
  have hheight : (Json.int 720).Sound := sound_pixels (by decide)
  have hsize : (Json.object [("width", width), ("height", .int 720)]).Sound :=
    .object (by simp) (by simp [h, hheight])
  exact .object (by simp [sized]) (by simp [sized, hsize])

/-- A library of a good project and one with a document of its own. -/
def besideGood (ms : List (String × Json)) : FileTree where
  entries := [(["recordings"], .directory), (["recordings", "bad"], .directory),
    (["recordings", "bad", "project.json"],
      .file (Json.write (.object ms)).toUTF8),
    (["recordings", "good"], .directory),
    (["recordings", "good", "project.json"],
      .file (Json.write (.object (sized (.int 1280)))).toUTF8)]

variable {ms : List (String × Json)}

theorem once_besideGood (ms : List (String × Json)) :
    (besideGood ms).OnceBelow ["recordings"] := by
  change (List.filter (isBelow ["recordings"])
    [["recordings"], ["recordings", "bad"],
      ["recordings", "bad", "project.json"], ["recordings", "good"],
      ["recordings", "good", "project.json"]]).Nodup
  decide

/-- The library that is in these trees. -/
def recordingsLibrary : Library := ⟨⟨.here, ["recordings"]⟩⟩

theorem children_besideGood (ms : List (String × Json)) :
    (besideGood ms).children recordingsLibrary.directory =
      .ok ["bad", "good"] := by
  have hsorted : (["bad", "good"].mergeSort fun a b => decide (a ≤ b)) =
      ["bad", "good"] := List.mergeSort_of_pairwise (by decide)
  exact congrArg Except.ok hsorted

theorem loads_good (ms : List (String × Json)) :
    ∃ p, loadFrom (besideGood ms) default
    (recordingsLibrary.directory.child "good") = .ok p := by
  have hsound : (Json.object (sized (.int 1280))).Sound :=
    sound_sized (sound_pixels (by decide))
  have hproject : ∃ p, Project.ofJson default (.object (sized (.int 1280))) =
      .ok p :=
    ⟨_, rfl⟩
  obtain ⟨p, hp⟩ := hproject
  refine ⟨p, (loadFrom_eq _ _ _).trans ?_⟩
  change parse _ _ (Json.write (.object (sized (.int 1280)))).toUTF8 = .ok p
  rw [parse, mapError_eq_ok.2 (document_written hsound), ok_bind]
  exact mapError_eq_ok.2 hp

/-- An empty document is passed over. -/
theorem list_readable_besideGood :
    ∃ p ps, loadFrom (besideGood []) default
        (recordingsLibrary.directory.child "good") = .ok p ∧
      (recordingsLibrary.list (besideGood []) default).result = .ok ps ∧
        p ∈ ps := by
  have hresolve : (besideGood []).resolve recordingsLibrary.directory =
      .ok ["recordings"] := rfl
  have hdirectory : entry? (besideGood []) ["recordings"] = some .directory := rfl
  have hlisted := list_readable hresolve hdirectory (once_besideGood _) default
  obtain ⟨p, hp⟩ := loads_good []
  obtain ⟨names, hnames, _, hmem⟩ :=
    children_eq_ok hresolve hdirectory (once_besideGood _)
  cases (children_besideGood []).symm.trans hnames
  have hok : ∃ ps, (recordingsLibrary.list (besideGood []) default).result =
      .ok ps := by
    refine hlisted.ok_iff.2 fun name hname hstops => ?_
    rcases List.mem_pair.1 ((hmem name).2 hname) with rfl | rfl
    · refine hlisted.inRange _ (Json.write (.object [])).toUTF8 rfl
        (fun doc hdoc => ?_) hstops.2
      cases (document_written Json.sound_nil).symm.trans hdoc
      exact .object nofun
    · obtain ⟨fault, hload, _⟩ := (hlisted.breaks_iff _).1 hstops.2
      cases hp.symm.trans hload
  obtain ⟨_, pairs, _, _, _, hpairs, hresult⟩ := hlisted.readable hok
  refine ⟨p, _, hp, hresult, List.mem_map_of_mem (a := ("good", p)) ?_⟩
  exact (hpairs "good" p).2 ⟨(hmem "good").1 (by simp), rfl, hp⟩

/-- An infinite width hides all other projects. -/
theorem good_hidden :
    (∃ p, loadFrom (besideGood (sized (.real (.infinite false)))) default
      (recordingsLibrary.directory.child "good") = .ok p) ∧
    ∃ fault, (recordingsLibrary.list (besideGood (sized (.real (.infinite false))))
      default).result = .error fault := by
  refine ⟨loads_good _, ?_⟩
  have hbreaks : Breaks (besideGood (sized (.real (.infinite false)))) default
      (recordingsLibrary.directory.child "bad") :=
    .outOfRange rfl (document_written (sound_sized (.real _))) rfl rfl
  have hdirectory : (besideGood (sized (.real (.infinite false)))).look
      (recordingsLibrary.directory.child "bad") = .ok .directory := rfl
  have hstops : Stops (besideGood (sized (.real (.infinite false)))) default
      (recordingsLibrary.directory.child "bad") := by
    refine ⟨fun content hfile => ?_, hbreaks⟩
    cases hdirectory.symm.trans hfile
  obtain ⟨fault, hfault⟩ :=
    visit_stops [recordingsLibrary.directory.child "good"] hstops
  have hresolve : (besideGood (sized (.real (.infinite false)))).resolve
      recordingsLibrary.directory = .ok ["recordings"] := rfl
  refine ⟨fault, ?_⟩
  rw [list_eq hresolve rfl (children_besideGood _), List.map_cons, List.map_cons,
    List.map_nil, hfault]
  rfl

end Library

end Cutlist
