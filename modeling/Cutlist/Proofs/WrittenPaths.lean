import Cutlist.Proofs.Places

/-!
# Paths as they are written

A program that is given a path as a text does not read it first: the system
takes the text as it is. It goes from slash to slash, and a stretch that is no
name, because it is empty or a dot, stays where it is; but there it needs a
directory, as a name does. In a path that was read such stretches are gone. So it
can lead to something although its text leads nowhere: when there is no text at
all, or when a slash stands behind the name of a file.

A stretch that is followed by another needs no look of its own, since the next
one needs the directory too. So the induction is from the last stretch backwards,
and that one alone tells the two ways apart.
-/

namespace Cutlist

/-! ## Stretches -/

namespace FilePath

/-- A character is in one of the stretches, unless it is a slash. -/
theorem exists_mem_split {c : Char} {cs : List Char} (hc : c ≠ '/')
    (hmem : c ∈ cs) : ∃ part ∈ split cs, c ∈ part := by
  induction cs with
  | nil => cases hmem
  | cons d cs ih =>
      rw [split]
      split
      · next hslash =>
        have hrest := (List.mem_cons.1 hmem).resolve_left fun h =>
          hc (h.trans hslash)
        obtain ⟨part, hpart, hin⟩ := ih hrest
        exact ⟨part, List.mem_cons_of_mem _ hpart, hin⟩
      · rcases List.mem_cons.1 hmem with rfl | hrest
        · split <;> exact ⟨_, List.mem_cons_self, List.mem_cons_self⟩
        obtain ⟨part, hpart, hin⟩ := ih hrest
        split
        · next hnil => rw [hnil] at hpart; cases hpart
        · next first rest hparts =>
          rw [hparts] at hpart
          rcases List.mem_cons.1 hpart with rfl | hpart
          · exact ⟨_, List.mem_cons_self, List.mem_cons_of_mem _ hin⟩
          · exact ⟨part, List.mem_cons_of_mem _ hpart, hin⟩

/-- No character gets lost when a text is read, unless it is a slash or a dot. -/
theorem exists_mem_names {c : Char} {text : String} (hslash : c ≠ '/')
    (hdot : c ≠ '.') (hmem : c ∈ text.toList) :
    ∃ name ∈ (ofString text).names, c ∈ name.toList := by
  obtain ⟨part, hpart, hin⟩ := exists_mem_split hslash hmem
  have hname : isName part = true := by
    rw [isName, Bool.not_eq_true', Bool.or_eq_false_iff]
    refine ⟨beq_false_of_ne ?_, beq_false_of_ne ?_⟩
    · rintro rfl
      cases hin
    · rintro rfl
      exact hdot (List.mem_singleton.1 hin)
  refine ⟨String.ofList part, ?_, by rwa [String.toList_ofList]⟩
  exact List.mem_map_of_mem (List.mem_filter.2 ⟨hpart, hname⟩)

/-- Whether the last of some stretches is no name. -/
def endsBare (parts : List (List Char)) : Bool := parts.getLast?.any (!isName ·)

@[simp] theorem endsBare_concat (parts : List (List Char)) (part : List Char) :
    endsBare (parts ++ [part]) = !isName part := by
  rw [endsBare, List.getLast?_concat]
  rfl

end FilePath

/-! ## Where a text leads -/

namespace FileTree

open FilePath

/-- The place that a stretch leads to. One that is no name stays in its
directory. -/
def pass (t : FileTree) (place : Place) (part : List Char) :
    Except FileError Place :=
  if isName part then t.walk place [String.ofList part]
  else match t.entry? place with
    | none => .error .notFound
    | some (.file _) => .error .notDirectory
    | some .directory => .ok place

/-- The place that a text leads to as it is written. -/
def resolveWritten (t : FileTree) (text : String) : Except FileError Place :=
  if text.toList.contains '\x00' then .error .nullCharacter
  else if text = "" then .error .notFound
  else if maxPath < text.utf8ByteSize then .error .tooLong
  else (split text.toList).foldlM t.pass (t.startOf (.ofString text))

/-- Something is where a text leads as it is written. -/
def HasWritten (t : FileTree) (text : String) : Prop :=
  ∃ q e, t.resolveWritten text = .ok q ∧ t.entry? q = some e

/-- A text that leads where its path leads: it is neither empty nor too long, and
if no name stands at its end, a directory is there. -/
structure Faithful (t : FileTree) (text : String) : Prop where
  nonempty : text ≠ ""
  short : text.utf8ByteSize ≤ maxPath
  directory : endsBare (split text.toList) = true →
    t.look (.ofString text) = .ok .directory

section Written

variable {t : FileTree} {q r : Place} {e : Entry}

theorem pass_name {part : List Char} (h : isName part = true) :
    t.pass q part = t.walk q [String.ofList part] :=
  if_pos h

theorem pass_bare_iff {part : List Char} (h : isName part = false) :
    t.pass q part = .ok r ↔ t.entry? q = some .directory ∧ q = r := by
  rw [pass, h, if_neg Bool.false_ne_true]
  cases t.entry? q with
  | none => simp
  | some e => cases e <;> simp

theorem walk_concat_iff {names : List String} {name : String} :
    t.walk q (names ++ [name]) = .ok r ↔
      ∃ m, t.walk q names = .ok m ∧ t.walk m [name] = .ok r := by
  simp only [walk_eq_ok_iff, passable_append, follow_append]
  constructor
  · rintro ⟨⟨hnames, hname⟩, hr⟩
    exact ⟨_, ⟨hnames, rfl⟩, hname, hr⟩
  · rintro ⟨_, ⟨hnames, rfl⟩, hname, hr⟩
    exact ⟨⟨hnames, hname⟩, hr⟩

/-- Stretches lead where their names lead, if the last is a name or leads to a
directory. -/
theorem foldlM_pass_iff {parts : List (List Char)} :
    parts.foldlM t.pass q = .ok r ↔
      t.walk q ((parts.filter isName).map String.ofList) = .ok r ∧
        (endsBare parts = true → t.entry? r = some .directory) := by
  induction parts using List.reverseRecOn generalizing r with
  | nil => simp [walk, endsBare, pure, Except.pure]
  | append_singleton parts part ih =>
      have hsteps : (parts ++ [part]).foldlM t.pass q = .ok r ↔
          ∃ m, parts.foldlM t.pass q = .ok m ∧ t.pass m part = .ok r := by
        simp only [List.foldlM_append, List.foldlM_cons, List.foldlM_nil,
          bind_pure]
        exact bind_eq_ok_iff
      rw [hsteps, endsBare_concat, List.filter_append, List.map_append]
      cases hname : isName part with
      | true =>
          rw [List.filter_cons_of_pos hname, List.filter_nil, List.map_singleton,
            walk_concat_iff]
          simp only [ih, pass_name hname]
          constructor
          · rintro ⟨m, ⟨hm, _⟩, hr⟩
            exact ⟨⟨m, hm, hr⟩, fun hbare => absurd hbare Bool.false_ne_true⟩
          · -- The name needs the directory that the stretch before it needs.
            rintro ⟨⟨m, hm, hr⟩, _⟩
            exact ⟨m, ⟨hm, fun _ => (walk_eq_ok_iff.1 hr).1.1⟩, hr⟩
      | false =>
          rw [List.filter_cons_of_neg (ne_true_of_eq_false hname),
            List.filter_nil, List.map_nil, List.append_nil]
          simp only [ih, pass_bare_iff hname]
          constructor
          · rintro ⟨_, ⟨hm, _⟩, hdirectory, rfl⟩
            exact ⟨hm, fun _ => hdirectory⟩
          · rintro ⟨hr, hdirectory⟩
            exact ⟨r, ⟨hr, fun _ => hdirectory rfl⟩, hdirectory rfl, rfl⟩

variable {text : String}

theorem resolveWritten_eq_ok_iff : t.resolveWritten text = .ok r ↔
    text.toList.contains '\x00' = false ∧ text ≠ "" ∧
      text.utf8ByteSize ≤ maxPath ∧
      (split text.toList).foldlM t.pass (t.startOf (.ofString text)) = .ok r := by
  rw [resolveWritten]
  cases text.toList.contains '\x00' with
  | true => exact ⟨nofun, fun h => nomatch h.1⟩
  | false =>
      rw [if_neg Bool.false_ne_true]
      split
      · next hempty => simp [hempty]
      split
      · next hlong => simp [Nat.not_le.2 hlong]
      · next hempty hlong => simp [hempty, Nat.not_lt.1 hlong]

theorem noNull_of_spellable (h : Spellable (.ofString text)) :
    text.toList.contains '\x00' = false := by
  by_contra hmem
  obtain ⟨name, hname, hin⟩ := exists_mem_names (by decide) (by decide)
    (List.contains_iff_mem.1 (eq_true_of_ne_false hmem))
  exact List.any_eq_false.1 h.noNull name hname (List.contains_iff_mem.2 hin)

/-- Where a path leads to something, its text leads there just when it is
faithful. -/
theorem hasWritten_iff (h : t.look (.ofString text) = .ok e) :
    t.HasWritten text ↔ t.Faithful text := by
  obtain ⟨q, hq, hentry⟩ := look_eq_ok_iff.1 h
  obtain ⟨hspell, hpass, htarget⟩ := resolve_eq_ok_iff.1 hq
  have hwalk : t.walk (t.startOf (.ofString text))
      (((split text.toList).filter isName).map String.ofList) = .ok q :=
    walk_eq_ok_iff.2 ⟨hpass, htarget⟩
  constructor
  · rintro ⟨r, _, hr, _⟩
    obtain ⟨_, hempty, hshort, hparts⟩ := resolveWritten_eq_ok_iff.1 hr
    obtain ⟨hnames, hlast⟩ := foldlM_pass_iff.1 hparts
    cases hwalk.symm.trans hnames
    exact ⟨hempty, hshort, fun hbare => look_eq_ok_iff.2 ⟨q, hq, hlast hbare⟩⟩
  · rintro ⟨hempty, hshort, hlast⟩
    refine ⟨q, e, resolveWritten_eq_ok_iff.2 ⟨noNull_of_spellable hspell, hempty,
      hshort, foldlM_pass_iff.2 ⟨hwalk, fun hbare => ?_⟩⟩, hentry⟩
    obtain ⟨q', hq', hdirectory⟩ := look_eq_ok_iff.1 (hlast hbare)
    cases hq.symm.trans hq'
    exact hdirectory

end Written

end FileTree

end Cutlist
