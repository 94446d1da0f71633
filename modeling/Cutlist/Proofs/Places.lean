import Cutlist.FileTree
import Cutlist.Proofs.Results
import Mathlib.Data.List.Basic
import Mathlib.Data.List.Induction

/-!
# Where a path leads

Following a path takes two answers from the tree at every name: whether a
directory is there to go on from, and nothing else. Where the path leads in the
end is written in it, together with the place it starts from. So a path keeps
leading to one place for as long as the directories on its way stay where they
are, whatever becomes of the files; and two paths that are not spelled alike
can lead to one place.
-/

namespace Cutlist

/-! ## Texts of paths -/

theorem intercalate_concat (sep : String) {names : List String}
    (h : names ≠ []) (name : String) :
    sep.intercalate (names ++ [name]) = sep.intercalate names ++ sep ++ name := by
  rw [← String.toList_inj]
  simp only [String.toList_intercalate, String.toList_append]
  induction names with
  | nil => exact absurd rfl h
  | cons x xs ih =>
      cases xs with
      | nil => simp
      | cons y ys =>
          simp only [List.map_cons, List.map_append, List.cons_append,
            List.intercalate_cons_cons, List.append_assoc] at ih ⊢
          rw [ih (by simp)]

namespace FilePath

variable {p : FilePath}

theorem toText_child (h : p.names ≠ []) (name : String) :
    (p.child name).toText = p.toText ++ "/" ++ name := by
  rw [toText, toText, if_neg (by simp [child]), if_neg (fun hp => h hp.2), child,
    intercalate_concat _ h, String.append_assoc, String.append_assoc,
    String.append_assoc]

/-- What stands before a name does not depend on it. -/
theorem exists_toText_child (p : FilePath) :
    ∃ before, ∀ name, (p.child name).toText = before ++ name := by
  by_cases h : p.names = []
  · refine ⟨p.start.toText, fun name => ?_⟩
    rw [toText, if_neg (by simp [child]), child, h, List.nil_append,
      String.intercalate_singleton]
  · exact ⟨p.toText ++ "/", toText_child h⟩

theorem split_of_notMem {cs : List Char} (h : '/' ∉ cs) : split cs = [cs] := by
  induction cs with
  | nil => rfl
  | cons c cs ih =>
      rw [List.mem_cons, not_or] at h
      rw [split, if_neg (Ne.symm h.1), ih h.2]

theorem ofString_name {s : String} (hne : s ≠ "") (hdot : s ≠ ".")
    (hslash : '/' ∉ s.toList) : ofString s = ⟨.here, [s]⟩ := by
  have hname : isName s.toList = true := by
    have hnil : s.toList ≠ [] := fun h => hne (String.toList_inj.1 h)
    have hone : s.toList ≠ ['.'] := fun h => hdot (String.toList_inj.1 h)
    rw [isName, beq_false_of_ne hnil, beq_false_of_ne hone]
    rfl
  have hstart : startOf s.toList = .here := by
    cases hcs : s.toList with
    | nil => rfl
    | cons c cs =>
        have hc : c ≠ '/' := by
          rintro rfl
          exact hslash (by rw [hcs]; exact List.mem_cons_self)
        unfold startOf
        split <;> simp_all
  rw [ofString, hstart, split_of_notMem hslash, List.filter_cons_of_pos hname,
    List.filter_nil, List.map_singleton, String.ofList_toList]

end FilePath

/-! ## Places -/

namespace FileTree

variable {t t' : FileTree} {p : FilePath} {q r : Place}

/-- The place that names lead to, if there is nothing in the way. -/
def follow (place : Place) (names : List String) : Place :=
  names.foldl (fun q name => if name = ".." then q.dropLast else q ++ [name])
    place

/-- The place that a path is about, if there is nothing in the way. -/
def target (t : FileTree) (p : FilePath) : Place := follow (t.startOf p) p.names

/-- Every name is that of something in a directory. -/
def Passable (t : FileTree) : Place → List String → Prop
  | _, [] => True
  | q, name :: names =>
      t.entry? q = some .directory ∧
        (name = ".." ∨ name.utf8ByteSize ≤ maxName) ∧
        t.Passable (follow q [name]) names

/-- A path whose text can be given to the system. -/
structure Spellable (p : FilePath) : Prop where
  noNull : p.names.any (·.toList.contains '\x00') = false
  short : p.toText.utf8ByteSize ≤ maxPath

theorem follow_append (place : Place) (xs ys : List String) :
    follow place (xs ++ ys) = follow (follow place xs) ys :=
  List.foldl_append

theorem follow_name {name : String} (h : name ≠ "..") (place : Place) :
    follow place [name] = place ++ [name] :=
  if_neg h

theorem passable_append {q : Place} {xs ys : List String} :
    t.Passable q (xs ++ ys) ↔
      t.Passable q xs ∧ t.Passable (follow q xs) ys := by
  induction xs generalizing q with
  | nil => simp [Passable, follow]
  | cons x xs ih =>
      simp only [List.cons_append, Passable, ih, and_assoc]
      rfl

theorem walk_eq_ok_iff {names : List String} :
    t.walk q names = .ok r ↔ t.Passable q names ∧ r = follow q names := by
  induction names generalizing q with
  | nil => simp [walk, Passable, follow, eq_comm]
  | cons name names ih =>
      rw [walk]
      cases hentry : t.entry? q with
      | none => simp [Passable, hentry]
      | some e =>
          cases e with
          | file content => simp [Passable, hentry]
          | directory =>
              by_cases hup : name = ".."
              · simp [Passable, hentry, hup, ih, follow]
              · by_cases hlong : maxName < name.utf8ByteSize
                · simp [Passable, hentry, hup, hlong, Nat.not_le.2 hlong]
                · simp [Passable, hentry, hup, hlong, Nat.not_lt.1 hlong, ih,
                    follow]

theorem resolve_eq_ok_iff : t.resolve p = .ok q ↔
    Spellable p ∧ t.Passable (t.startOf p) p.names ∧ q = t.target p := by
  rw [resolve]
  by_cases hnull : p.names.any (·.toList.contains '\x00') = true
  · rw [if_pos hnull]
    exact ⟨nofun, fun h => absurd (h.1.noNull.symm.trans hnull) nofun⟩
  · rw [if_neg hnull]
    by_cases hlong : maxPath < p.toText.utf8ByteSize
    · rw [if_pos hlong]
      exact ⟨nofun, fun h => absurd h.1.short (Nat.not_le.2 hlong)⟩
    · rw [if_neg hlong, walk_eq_ok_iff]
      exact ⟨fun h => ⟨⟨eq_false_of_ne_true hnull, Nat.not_lt.1 hlong⟩, h⟩,
        And.right⟩

theorem target_of_resolve (h : t.resolve p = .ok q) : q = t.target p :=
  (resolve_eq_ok_iff.1 h).2.2

theorem resolve_child_iff {name : String} (h : name ≠ "..") :
    t.resolve (p.child name) = .ok q ↔ Spellable (p.child name) ∧
      t.Passable (t.startOf p) p.names ∧
      t.entry? (t.target p) = some .directory ∧
      name.utf8ByteSize ≤ maxName ∧ q = t.target p ++ [name] := by
  have hstart : t.startOf (p.child name) = t.startOf p := rfl
  have htarget : t.target (p.child name) = t.target p ++ [name] := by
    rw [target, target, hstart, FilePath.child, follow_append, follow_name h]
  rw [resolve_eq_ok_iff, htarget, hstart, FilePath.child, passable_append]
  simp [Passable, h, target, and_assoc]

/-- A path that leads to a name in the directory above it ends with that name. -/
theorem eq_child_of_target {name : String}
    (h : t.target p = t.target p.parent ++ [name]) : p = p.parent.child name := by
  have hlength := congrArg List.length h
  obtain ⟨start, names⟩ := p
  cases names using List.reverseRecOn with
  | nil => simp [FilePath.parent] at hlength
  | append_singleton init last =>
      have hparent : t.target ⟨start, init ++ [last]⟩ =
          follow (t.target (⟨start, init ++ [last]⟩ : FilePath).parent)
            [last] := by
        simp only [FilePath.parent, List.dropLast_concat]
        exact follow_append ..
      rw [hparent] at h hlength
      by_cases hup : last = ".."
      · have hfollow : ∀ q, follow q [last] = q.dropLast := fun q => if_pos hup
        rw [hfollow, List.length_dropLast, List.length_append] at hlength
        simp at hlength
      · rw [follow_name hup, List.append_cancel_left_eq, List.singleton_inj] at h
        subst h
        simp [FilePath.parent, FilePath.child]

/-- Of two names in a directory, what can be said of the longer one can be said
of the other. -/
theorem resolve_sibling {a b : String} (h : t.resolve (p.child a) = .ok q)
    (ha : a ≠ "..") (hb : b ≠ "..") (hnull : b.toList.contains '\x00' = false)
    (hshort : b.utf8ByteSize ≤ a.utf8ByteSize) :
    t.resolve (p.child b) = .ok (t.target p ++ [b]) := by
  obtain ⟨hspell, hpass, hdirectory, hname, _⟩ := (resolve_child_iff ha).1 h
  refine (resolve_child_iff hb).2
    ⟨⟨?_, ?_⟩, hpass, hdirectory, Nat.le_trans hshort hname, rfl⟩
  · have hnone := hspell.noNull
    rw [FilePath.child, List.any_append, Bool.or_eq_false_iff] at hnone ⊢
    exact ⟨hnone.1, by simpa using hnull⟩
  · obtain ⟨before, hbefore⟩ := p.exists_toText_child
    have hlong := hspell.short
    rw [hbefore, String.utf8ByteSize_append] at hlong ⊢
    omega

theorem look_eq_ok_iff {e : Entry} : t.look p = .ok e ↔
    ∃ q, t.resolve p = .ok q ∧ t.entry? q = some e := by
  rw [look]
  cases hresolve : t.resolve p with
  | error why => exact ⟨nofun, fun ⟨_, h, _⟩ => nomatch h⟩
  | ok q =>
      rw [ok_bind]
      cases hentry : t.entry? q with
      | none => simp [hentry]
      | some e' => simp [hentry, pure, Except.pure]

/-! ## Directories that stay -/

/-- The directories of one tree are also those of another. -/
structure Keeps (t t' : FileTree) : Prop where
  current : t'.current = t.current
  directory : ∀ q, t.entry? q = some .directory →
    t'.entry? q = some .directory

theorem Keeps.refl (t : FileTree) : t.Keeps t := ⟨rfl, fun _ h => h⟩

theorem Keeps.trans {t'' : FileTree} (h : t.Keeps t') (h' : t'.Keeps t'') :
    t.Keeps t'' :=
  ⟨h'.current.trans h.current, fun q hq => h'.directory q (h.directory q hq)⟩

theorem Keeps.startOf (h : t.Keeps t') (p : FilePath) :
    t'.startOf p = t.startOf p := by
  rw [FileTree.startOf, FileTree.startOf, h.current]

theorem Keeps.target (h : t.Keeps t') (p : FilePath) :
    t'.target p = t.target p := by
  rw [FileTree.target, FileTree.target, h.startOf]

theorem Keeps.passable (h : t.Keeps t') {names : List String}
    (hpass : t.Passable q names) : t'.Passable q names := by
  induction names generalizing q with
  | nil => trivial
  | cons name names ih =>
      exact ⟨h.directory q hpass.1, hpass.2.1, ih hpass.2.2⟩

theorem Keeps.resolve (h : t.Keeps t') (hq : t.resolve p = .ok q) :
    t'.resolve p = .ok q := by
  rw [resolve_eq_ok_iff] at hq ⊢
  rw [h.startOf, h.target]
  exact ⟨hq.1, h.passable hq.2.1, hq.2.2⟩

end FileTree

end Cutlist
