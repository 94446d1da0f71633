import Cutlist.Proofs.Shelves

/-!
# What a deletion takes away

A deletion follows the identifier of a project from the directory of the library
and removes the directory that it leads to. That one is emptied first, and only
then removed, which may fail: a path that ends by going up names no entry, and
one that goes up on its way may have lost what it passed. In every case what is
taken away lies at or below the place where the identifier leads.

Whether that is one project depends on the identifier. A name leads to a
directory of its own. A text that leads to the directory of the library, above
it, or elsewhere takes away whatever is there, and nothing stands against it.
-/

namespace Cutlist

open FileTree

namespace FileTree

variable {t t' : FileTree} {p : FilePath} {q r top : Place}

theorem has_of_look {e : Entry} (h : t.look p = .ok e) : t.has p = .ok true := by
  rw [has, look?, h]
  rfl

/-- Only a directory is cleared. -/
theorem clear_eq_ok_iff : t.clear p = .ok t' ↔ ∃ q, t.resolve p = .ok q ∧
    t.entry? q = some .directory ∧ t' = t.without (isBelow q) := by
  constructor
  · intro h
    rw [clear] at h
    obtain ⟨q, hq, h⟩ := bind_eq_ok h
    refine ⟨q, hq, ?_⟩
    cases hentry : t.entry? q with
    | none => rw [hentry] at h; cases h
    | some e =>
        rw [hentry] at h
        cases e with
        | file content => cases h
        | directory => exact ⟨rfl, (Except.ok.inj h).symm⟩
  · rintro ⟨q, hq, hentry, rfl⟩
    exact clear_eq hq hentry

/-- What is removed is named by the path, and so it is not the root. -/
theorem removeDirectory_eq_ok (h : t.removeDirectory p = .ok t') :
    t.target p ≠ [] ∧ t' = t.without (· == t.target p) := by
  rw [removeDirectory] at h
  obtain ⟨q, hq, h⟩ := bind_eq_ok h
  obtain rfl := target_of_resolve hq
  cases hentry : t.entry? (t.target p) with
  | none => rw [hentry] at h; cases h
  | some e =>
      rw [hentry] at h
      cases e with
      | file content => cases h
      | directory =>
          dsimp only at h
          split at h
          · cases h
          next hnames =>
          split at h
          · cases h
          next hlast =>
          refine ⟨?_, (Except.ok.inj h).symm⟩
          obtain ⟨front, name, hname⟩ :=
            (List.eq_nil_or_concat' p.names).resolve_left hnames
          have hup : name ≠ ".." := by
            rintro rfl
            simp [FilePath.name?, hname] at hlast
          rw [target, hname, follow_append, follow_name hup]
          exact List.append_ne_nil_of_right_ne_nil _ (List.cons_ne_nil _ _)

theorem entry?_without_of_kept {gone : Place → Bool} (h : gone r = false) :
    entry? (t.without gone) r = t.entry? r := by
  by_cases hr : r = []
  · rw [hr, entry?_nil, entry?_nil]
  · rw [entry?_without _ hr, h, if_neg Bool.false_ne_true]

theorem isWithin_self (q : Place) : isWithin q q = true :=
  List.isPrefixOf_iff_prefix.2 (List.prefix_refl q)

theorem isWithin_iff : isWithin top q = true ↔ ∃ r, q = top ++ r := by
  rw [isWithin, List.isPrefixOf_iff_prefix]
  constructor
  · rintro ⟨r, rfl⟩
    exact ⟨r, rfl⟩
  · rintro ⟨r, rfl⟩
    exact ⟨r, rfl⟩

/-- A place below a directory is at or below one of its entries. -/
theorem isBelow_iff_exists : isBelow top q = true ↔
    ∃ name, isWithin (top ++ [name]) q = true := by
  rw [isBelow_iff]
  constructor
  · rintro ⟨r, hr, rfl⟩
    obtain ⟨name, rest, rfl⟩ := List.exists_cons_of_ne_nil hr
    exact ⟨name, isWithin_iff.2 ⟨rest, by simp⟩⟩
  · rintro ⟨name, h⟩
    obtain ⟨rest, rfl⟩ := isWithin_iff.1 h
    exact ⟨name :: rest, List.cons_ne_nil _ _, by simp⟩

theorem isWithin_trans (h : isWithin top q = true) (h' : isWithin q r = true) :
    isWithin top r = true := by
  obtain ⟨_, rfl⟩ := isWithin_iff.1 h
  obtain ⟨_, rfl⟩ := isWithin_iff.1 h'
  exact isWithin_iff.2 ⟨_, List.append_assoc ..⟩

end FileTree

namespace Library

variable {l : Library} {t : FileTree} {id : String} {top q : Place}

theorem outcome_step_error {op : FileTree → Except FileError FileTree}
    {why : FileError} (h : op t = .error why) :
    (step op).outcome t = (.error (.file why), t) := by
  have hget : Change.outcome get t = (.ok t, t) := rfl
  refine (outcome_bind_ok hget _).trans ?_
  rw [h]
  rfl

theorem find_eq_ok {path : FilePath} (h : l.find t id = .ok path) :
    path = l.placeOf id := by
  rw [find] at h
  obtain ⟨there, _, h⟩ := bind_eq_ok h
  cases there with
  | false => cases h
  | true => exact (Except.ok.inj h).symm

theorem delete_failed {fault : Fault} (h : l.find t id = .error fault) :
    (l.delete id).outcome t = (.error fault, t) := by
  have hget : Change.outcome get t = (.ok t, t) := rfl
  have hfind : Change.outcome (liftM (l.find t id)) t = (.error fault, t) := by
    rw [outcome_lift, h]
  exact (outcome_bind_ok hget _).trans (outcome_bind_error hfind _)

theorem delete_found {path : FilePath} (h : l.find t id = .ok path) :
    (l.delete id).outcome t = Change.outcome (do
      step (·.clear path)
      step (·.removeDirectory path)) t := by
  have hget : Change.outcome get t = (.ok t, t) := rfl
  have hfind : Change.outcome (liftM (l.find t id)) t = (.ok path, t) := by
    rw [outcome_lift, h]
  exact (outcome_bind_ok hget _).trans (outcome_bind_ok hfind _)

/-- A tree with nothing left below the place that an identifier leads to. -/
def emptied (l : Library) (t : FileTree) (id : String) : FileTree :=
  t.without (isBelow (t.target (l.placeOf id)))

/-- What a deletion can do: nothing at all, or to empty the directory that the
identifier leads to, which is then removed or is left empty. -/
theorem delete_cases (l : Library) (t : FileTree) (id : String) :
    (t.look (l.placeOf id) ≠ .ok .directory ∧
      ∃ fault, (l.delete id).outcome t = (.error fault, t)) ∨
    (t.look (l.placeOf id) = .ok .directory ∧
      ((∃ fault, (l.delete id).outcome t = (.error fault, l.emptied t id)) ∨
        t.target (l.placeOf id) ≠ [] ∧ (l.delete id).outcome t =
          (.ok (), (l.emptied t id).without (· == t.target (l.placeOf id))))) := by
  by_cases hlook : t.look (l.placeOf id) = .ok .directory
  · obtain ⟨q, hq, hentry⟩ := look_eq_ok_iff.1 hlook
    obtain rfl := target_of_resolve hq
    have hfound : l.find t id = .ok (l.placeOf id) := by
      rw [find, has_of_look hlook]
      rfl
    have hcleared := (delete_found hfound).trans
      (outcome_bind_ok (outcome_step (clear_eq hq hentry)) _)
    refine .inr ⟨hlook, ?_⟩
    cases hremove : (l.emptied t id).removeDirectory (l.placeOf id) with
    | error why => exact .inl ⟨_, hcleared.trans (outcome_step_error hremove)⟩
    | ok t' =>
        obtain ⟨hne, rfl⟩ := removeDirectory_eq_ok hremove
        exact .inr ⟨hne, hcleared.trans (outcome_step hremove)⟩
  · refine .inl ⟨hlook, ?_⟩
    cases hfind : l.find t id with
    | error fault => exact ⟨fault, delete_failed hfind⟩
    | ok path =>
        obtain rfl := find_eq_ok hfind
        cases hclear : t.clear (l.placeOf id) with
        | error why =>
            exact ⟨_, (delete_found hfind).trans
              (outcome_bind_error (outcome_step_error hclear) _)⟩
        | ok t' =>
            obtain ⟨q, hq, hentry, _⟩ := clear_eq_ok_iff.1 hclear
            exact absurd (look_eq_ok_iff.2 ⟨q, hq, hentry⟩) hlook

/-- A deletion keeps to one project when it fails and changes nothing, or takes
nothing away but what lies at or below one entry of the library's directory. -/
def KeepsToOne (top : Place) (t : FileTree) (out : Except Fault Unit × FileTree) :
    Prop :=
  (∃ fault, out = (.error fault, t)) ∨
    ∃ name, ∀ q, FileTree.entry? out.2 q ≠ t.entry? q →
      isWithin (top ++ [name]) q = true

/-- A text that is the name of an entry. -/
structure IsName (id : String) : Prop where
  nonempty : id ≠ ""
  notHere : id ≠ "."
  notUp : id ≠ ".."
  noSlash : '/' ∉ id.toList

theorem target_placeOf (l : Library) (t : FileTree) (h : IsName id) :
    t.target (l.placeOf id) = t.target l.directory ++ [id] := by
  rw [placeOf, FilePath.ofString_name h.nonempty h.notHere h.noSlash, target,
    FilePath.join, if_pos rfl, follow_append]
  exact follow_name h.notUp _

namespace KeepsToOne

variable {out : Except Fault Unit × FileTree} {place : Place}

/-- What happens at and below one place keeps to the project that it is in. -/
theorem of_outside (houtside : ∀ q, isWithin place q = false →
    FileTree.entry? out.2 q = t.entry? q) (h : isBelow top place = true) :
    KeepsToOne top t out := by
  obtain ⟨name, hname⟩ := isBelow_iff_exists.1 h
  refine .inr ⟨name, fun q hq => isWithin_trans hname ?_⟩
  by_contra hnot
  exact hq (houtside q (Bool.eq_false_iff.2 hnot))

/-- Where something was taken away, one project was. -/
theorem isBelow (h : KeepsToOne top t out) (hok : out.1 = .ok ())
    (hgone : FileTree.entry? out.2 place ≠ t.entry? place) :
    isBelow top place = true := by
  rcases h with ⟨fault, rfl⟩ | ⟨name, hname⟩
  · cases hok
  · exact isBelow_iff_exists.2 ⟨name, hname place hgone⟩

end KeepsToOne

/-- What has become of a tree when the project of an identifier was deleted. The
identifier leads to a place, which may be below the directory of the library or
anywhere else. -/
structure Deleted (l : Library) (t : FileTree) (id : String)
    (out : Except Fault Unit × FileTree) : Prop where
  untouched : t.look (l.placeOf id) ≠ .ok .directory →
    ∃ fault, out = (.error fault, t)
  outside : ∀ q, isWithin (t.target (l.placeOf id)) q = false →
    FileTree.entry? out.2 q = t.entry? q
  emptied : t.look (l.placeOf id) = .ok .directory →
    ∀ q, isBelow (t.target (l.placeOf id)) q = true →
      FileTree.entry? out.2 q = none
  removed : out.1 = .ok () →
    t.entry? (t.target (l.placeOf id)) = some .directory ∧
    FileTree.entry? out.2 (t.target (l.placeOf id)) = none
  below : isBelow (t.target l.directory) (t.target (l.placeOf id)) = true →
    KeepsToOne (t.target l.directory) t out
  onlyBelow : out.1 = .ok () → KeepsToOne (t.target l.directory) t out →
    isBelow (t.target l.directory) (t.target (l.placeOf id)) = true
  named : IsName id → KeepsToOne (t.target l.directory) t out

/-- Where the parts that say what keeps to one project come from. -/
theorem Deleted.of_taken {out : Except Fault Unit × FileTree}
    (huntouched : t.look (l.placeOf id) ≠ .ok .directory →
      ∃ fault, out = (.error fault, t))
    (houtside : ∀ q, isWithin (t.target (l.placeOf id)) q = false →
      FileTree.entry? out.2 q = t.entry? q)
    (hemptied : t.look (l.placeOf id) = .ok .directory →
      ∀ q, isBelow (t.target (l.placeOf id)) q = true →
        FileTree.entry? out.2 q = none)
    (hremoved : out.1 = .ok () →
      t.entry? (t.target (l.placeOf id)) = some .directory ∧
      FileTree.entry? out.2 (t.target (l.placeOf id)) = none) :
        Deleted l t id out := by
  refine ⟨huntouched, houtside, hemptied, hremoved, .of_outside houtside,
    fun hok h => h.isBelow hok ?_, fun hname => .of_outside houtside ?_⟩
  · obtain ⟨hthere, hgone⟩ := hremoved hok
    rw [hthere, hgone]
    exact nofun
  · rw [target_placeOf l t hname]
    exact isBelow_iff.2 ⟨[id], List.cons_ne_nil _ _, rfl⟩

/-- A deletion takes away the directory that the identifier leads to, with all
that is in it, and nothing else; that is one project when the directory is below
that of the library, and not otherwise. -/
theorem delete_removes_place (l : Library) (t : FileTree) (id : String) :
    Deleted l t id ((l.delete id).outcome t) := by
  rcases delete_cases l t id with ⟨hlook, fault, hout⟩ |
    ⟨hlook, ⟨fault, hout⟩ | ⟨hne, hout⟩⟩
  · rw [hout]
    exact .of_taken (fun _ => ⟨fault, rfl⟩) (fun _ _ => rfl)
      (fun h => absurd h hlook) nofun
  -- A directory that cannot be removed itself, as the root, has been emptied before.
  · rw [hout]
    refine .of_taken (absurd hlook) (fun q hq => ?_) (fun _ q hq => ?_) nofun
    · refine entry?_without_of_kept ?_
      rw [isBelow, hq, Bool.false_and]
    · rw [emptied, entry?_without _ (ne_nil_of_isBelow hq), if_pos hq]
  · rw [hout]
    obtain ⟨q, hq, hentry⟩ := look_eq_ok_iff.1 hlook
    obtain rfl := target_of_resolve hq
    refine .of_taken (absurd hlook) (fun q hq => ?_) (fun _ q hq => ?_)
      fun _ => ⟨hentry, ?_⟩
    · rw [entry?_without_self hne, if_neg, emptied]
      · refine entry?_without_of_kept ?_
        rw [isBelow, hq, Bool.false_and]
      · rintro rfl
        rw [isWithin_self] at hq
        cases hq
    · rw [entry?_without_self hne, emptied,
        entry?_without _ (ne_nil_of_isBelow hq), if_pos hq, ite_self]
    · rw [entry?_without_self hne, if_pos rfl]

/-- A library of two projects. -/
def twoProjects : FileTree where
  entries := [(["recordings"], .directory), (["recordings", "a"], .directory),
    (["recordings", "a", "project.json"], .file "a".toUTF8),
    (["recordings", "b"], .directory),
    (["recordings", "b", "project.json"], .file "b".toUTF8)]

/-- An identifier without a character is taken for the library itself: both of
its projects are gone afterwards, and so is its directory. -/
theorem delete_nameless :
    ((delete ⟨.ofString "recordings"⟩ "").outcome twoProjects).1 = .ok () ∧
    ((delete ⟨.ofString "recordings"⟩ "").outcome twoProjects).2.entries = [] ∧
    ¬ KeepsToOne (twoProjects.target (.ofString "recordings")) twoProjects
      ((delete ⟨.ofString "recordings"⟩ "").outcome twoProjects) := by
  have hok : ((delete ⟨.ofString "recordings"⟩ "").outcome twoProjects).1 =
    .ok () := rfl
  refine ⟨hok, rfl, fun hkeeps => ?_⟩
  have hgone : FileTree.entry?
      ((delete ⟨.ofString "recordings"⟩ "").outcome twoProjects).2
        ["recordings"] ≠
        twoProjects.entry? ["recordings"] := by
    change (none : Option Entry) ≠ some .directory
    exact nofun
  exact absurd (hkeeps.isBelow hok hgone) (by decide)

end Library

end Cutlist
