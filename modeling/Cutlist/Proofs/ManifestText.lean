import Cutlist.Proofs.DirectoryChanges
import Cutlist.Proofs.LostFootage
import Cutlist.Proofs.StoredProjects

/-!
# A manifest is read as the paths that it was written for

A path stands between single quotes, where nothing but a single quote has a
meaning, and a backslash has none. So a single quote of the path closes the
span, stands outside of it behind a backslash, and opens a span again. A reader
who follows these rules is back inside quotes after each character of the path,
whatever the character is; that carries the proof. Lines are what is left to
look at: no line ends early as long as no path has the end of a line in it.
-/

namespace Cutlist.Recording

open Session Cutlist.Action FileTree

namespace Manifest

/-! ## The reader -/

/-- What an argument stands for, outside or inside of quotes. Inside, every
character up to the next quote stands for itself; outside, a backslash takes the
next character as it is, and only blanks may follow a blank. -/
def argument? : Bool → List Char → Option (List Char)
  | false, [] => some []
  | true, [] => none
  | false, '\'' :: cs => argument? true cs
  | true, '\'' :: cs => argument? false cs
  | false, '\\' :: c :: cs => (argument? false cs).map (c :: ·)
  | false, c :: cs =>
      if Text.isPlainBlank c then
        if cs.all Text.isPlainBlank then some [] else none
      else (argument? false cs).map (c :: ·)
  | true, c :: cs => (argument? true cs).map (c :: ·)

/-- The path on a line. -/
def path? : List Char → Option (List Char)
  | 'f' :: 'i' :: 'l' :: 'e' :: ' ' :: cs =>
      argument? false (cs.dropWhile Text.isPlainBlank)
  | _ => none

/-- The paths in a text, each on a line of its own. A line with nothing on it is
passed over. -/
def pathsOf? (text : String) : Option (List String) :=
  ((text.toList.splitOn '\n').filter (!·.isEmpty)).mapM fun line =>
    (path? line).map String.ofList

/-- The paths in a file. -/
def paths? (content : ByteArray) : Option (List String) :=
  (Text.Utf8.text content).toOption.bind pathsOf?

/-! ## One path -/

/-- Inside quotes, the characters of a path are read as the path, and after them
the reader is inside quotes again. -/
theorem argument?_encode (path rest : List Char) :
    argument? true (encode path ++ rest) =
      (argument? true rest).map (path ++ ·) := by
  induction path with
  | nil => exact Option.map_id'.symm
  | cons c path ih =>
      have hpath : (argument? true (encode path ++ rest)).map (c :: ·) =
          (argument? true rest).map (c :: path ++ ·) := by
        rw [ih, Option.map_map]
        rfl
      rw [encode, List.flatMap_cons, quotedChar]
      split
      · next hquote =>
          subst hquote
          exact hpath
      · next hplain =>
          rw [← hpath]
          exact argument?.eq_7 c _ hplain

theorem toList_line (path : String) :
    (line path).toList = "file '".toList ++ (encode path.toList ++ ['\'']) := by
  simp only [line, escaped, String.toList_append, String.toList_ofList,
    List.append_assoc]
  rfl

theorem path?_line (path : String) :
    path? (line path).toList = some path.toList := by
  rw [toList_line]
  refine (argument?_encode path.toList ['\'']).trans ?_
  exact congrArg some (List.append_nil _)

/-! ## Lines -/

theorem mem_encode {c : Char} {path : List Char} (h : c ∈ encode path) :
    c ∈ path ∨ c = '\'' ∨ c = '\\' := by
  obtain ⟨x, hx, hc⟩ := List.mem_flatMap.1 h
  rw [quotedChar] at hc
  split at hc
  · simp only [List.mem_cons, List.not_mem_nil, or_false] at hc
    tauto
  · rw [List.mem_singleton] at hc
    subst hc
    exact .inl hx

/-- The characters of a line that are not those of its path. -/
def marks : List Char := "file '\\".toList

theorem mem_line {c : Char} {path : String} (h : c ∈ (line path).toList) :
    c ∈ path.toList ∨ c ∈ marks := by
  rw [toList_line, List.mem_append, List.mem_append, List.mem_singleton] at h
  rcases h with h | h | rfl
  · exact .inr (List.mem_append_left ['\\'] h)
  · rcases mem_encode h with h | rfl | rfl
    · exact .inl h
    · exact .inr (by decide)
    · exact .inr (by decide)
  · exact .inr (by decide)

theorem toList_text (paths : List String) :
    (text paths).toList = ['\n'].intercalate (paths.map fun p =>
      (line p).toList) := by
  rw [text, String.toList_intercalate, List.map_map]
  rfl

theorem mem_text {c : Char} {paths : List String} (h : c ∈ (text paths).toList) :
    c = '\n' ∨ ∃ p ∈ paths, c ∈ (line p).toList := by
  rw [toList_text] at h
  induction paths with
  | nil => cases h
  | cons p paths ih =>
      cases paths with
      | nil =>
          rw [List.map_singleton, List.intercalate_singleton] at h
          exact .inr ⟨p, List.mem_singleton_self p, h⟩
      | cons q paths =>
          rw [List.map_cons, List.map_cons, List.intercalate_cons_cons,
            List.append_assoc, List.mem_append, List.mem_append,
            List.mem_singleton] at h
          rcases h with h | h | h
          · exact .inr ⟨p, List.mem_cons_self, h⟩
          · exact .inl h
          · rcases ih h with h | ⟨r, hr, h⟩
            · exact .inl h
            · exact .inr ⟨r, List.mem_cons_of_mem p hr, h⟩

/-- A path that stays on one line. -/
def OneLine (path : String) : Prop := '\n' ∉ path.toList ∧ '\r' ∉ path.toList

instance (path : String) : Decidable (OneLine path) :=
  inferInstanceAs (Decidable (_ ∧ _))

theorem mapM_path?_line (paths : List String) :
    (paths.map fun p => (line p).toList).mapM
      (fun l => (path? l).map String.ofList) = some paths := by
  induction paths with
  | nil => rfl
  | cons p paths ih =>
      rw [List.map_cons, List.mapM_cons, path?_line, ih]
      change some (String.ofList p.toList :: paths) = _
      rw [String.ofList_toList]

theorem pathsOf?_text {paths : List String} (h : ∀ p ∈ paths, OneLine p) :
    pathsOf? (text paths) = some paths := by
  -- no paths at all leave one line with nothing on it
  by_cases hnone : paths = []
  · subst hnone
    rfl
  have hbreaks : ∀ l ∈ paths.map fun p => (line p).toList, '\n' ∉ l := by
    intro l hl hmem
    obtain ⟨p, hp, rfl⟩ := List.mem_map.1 hl
    rcases mem_line hmem with hmem | hmem
    · exact (h p hp).1 hmem
    · exact absurd hmem (by decide)
  have hfull : (paths.map fun p => (line p).toList).filter (!·.isEmpty) =
      paths.map fun p => (line p).toList := by
    refine List.filter_eq_self.2 fun l hl => ?_
    obtain ⟨p, _, rfl⟩ := List.mem_map.1 hl
    rw [toList_line]
    rfl
  rw [pathsOf?, toList_text, List.splitOn_intercalate '\n' hbreaks
    (mt List.map_eq_nil_iff.1 hnone), hfull]
  exact mapM_path?_line paths

theorem return_notMem_text {paths : List String} (h : ∀ p ∈ paths, OneLine p) :
    '\r' ∉ (text paths).toList := by
  intro hmem
  rcases mem_text hmem with hbreak | ⟨p, hp, hmem⟩
  · exact absurd hbreak (by decide)
  rcases mem_line hmem with hmem | hmem
  · exact (h p hp).2 hmem
  · exact absurd hmem (by decide)

theorem paths?_text {paths : List String} (h : ∀ p ∈ paths, OneLine p) :
    paths? (text paths).toUTF8 = some paths := by
  rw [paths?, Text.Utf8.text_toUTF8 (return_notMem_text h)]
  exact pathsOf?_text h

end Manifest

/-! ## The file -/

/-- The manifest is written wherever a file can stand. -/
theorem writeManifest_outcome {s : Session} {path : FilePath} {place : Place}
    (hplace : s.files.resolve path = .ok place)
    (hfree : s.files.entry? place ≠ some .directory) (paths : List String)
    (host : Host) : ∃ t,
      (writeManifest paths path).outcome host s =
        (.ok path, { s with files := t }) ∧
      t.read path = .ok (Manifest.text paths).toUTF8 := by
  let content := (Manifest.text paths).toUTF8
  have hwrite : s.files.write path content =
      .ok (s.files.put place (.file content)) :=
    write_eq_ok_iff.2 ⟨place, hplace, hfree, rfl⟩
  have hentry : entry? (s.files.put place (.file content)) place =
      some (.file content) := by
    rw [entry?_put (ne_nil_of_entry hfree), if_pos rfl]
  refine ⟨_, outcome_bind_ok (outcome_change_ok hwrite) _, ?_⟩
  exact read_eq ((write_grows hwrite).resolve hplace) hentry

/-- Whatever characters the paths are made of, as long as each stays on its
line: the manifest that is written for them is read as these paths, each once
and in their order. -/
theorem manifest_reads_back {paths : List String}
    (h : ∀ p ∈ paths, Manifest.OneLine p) :
    Manifest.paths? (Manifest.text paths).toUTF8 = some paths ∧
      ∀ (host : Host) (s : Session) (path : FilePath) (place : Place),
        s.files.resolve path = .ok place →
        s.files.entry? place ≠ some .directory →
        ∃ t, (writeManifest paths path).outcome host s =
            (.ok path, { s with files := t }) ∧
          (t.read path).toOption.bind Manifest.paths? = some paths := by
  have hback := Manifest.paths?_text h
  refine ⟨hback, fun host s path place hplace hfree => ?_⟩
  obtain ⟨t, hwritten, hread⟩ := writeManifest_outcome hplace hfree paths host
  refine ⟨t, hwritten, ?_⟩
  rw [hread]
  exact hback

/-- Paths with all the marks that a reader of manifests knows. -/
def awkward : List String :=
  ["it's  here.mp4", "'", "a \\' b\\", "''\\\\", " ", ""]

theorem manifest_reads_back_awkward :
    (∀ p ∈ awkward, Manifest.OneLine p) ∧
      Manifest.paths? (Manifest.text awkward).toUTF8 = some awkward ∧
      ∃ t, (writeManifest awkward (inRec "list.txt")).outcome
            (hostWith halfway) { files := retaken } =
          (.ok (inRec "list.txt"), { files := t }) ∧
        (t.read (inRec "list.txt")).toOption.bind Manifest.paths? =
          some awkward := by
  have hline : ∀ p ∈ awkward, Manifest.OneLine p := by decide
  obtain ⟨hback, hfile⟩ := manifest_reads_back hline
  exact ⟨hline, hback, hfile (hostWith halfway) { files := retaken }
    (inRec "list.txt") ["rec", "list.txt"] (by decide) (by decide)⟩

end Cutlist.Recording
