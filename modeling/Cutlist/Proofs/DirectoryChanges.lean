import Cutlist.Proofs.FileChanges
import Mathlib.Data.List.Nodup
import Mathlib.Data.String.Basic
import Mathlib.Order.Basic

/-!
# What changes below a directory

A directory is made, filled, listed and removed without anything outside of it
being touched; and a path that leads to it from outside keeps leading to it. A
path may go down into other directories and up again on its way, so this takes
more than that the directory itself stays: what the path passes must not lie
below.

The entries of a tree are a list, in which a place could stand twice, and then
would be listed twice. No operation makes it so.
-/

namespace Cutlist.FileTree

variable {t t' : FileTree} {p : FilePath} {q r top : Place} {e : Entry}

/-! ## Looking at a place -/

theorem look?_eq (hq : t.resolve p = .ok q) : t.look? p = .ok (t.entry? q) := by
  rw [look?, look, hq, ok_bind]
  cases t.entry? q <;> rfl

theorem has_eq (hq : t.resolve p = .ok q) :
    t.has p = .ok (t.entry? q).isSome := by
  rw [has, look?_eq hq]
  rfl

theorem isDirectory_eq (hq : t.resolve p = .ok q) :
    t.isDirectory p = .ok (decide (t.entry? q = some .directory)) := by
  rw [isDirectory, look?_eq hq]
  rfl

theorem read_eq {content : ByteArray} (hq : t.resolve p = .ok q)
    (h : t.entry? q = some (.file content)) : t.read p = .ok content := by
  rw [read, look_eq_ok_iff.2 ⟨q, hq, h⟩]
  rfl

/-! ## Every place once -/

/-- The places of all entries. -/
def places (t : FileTree) : List Place := t.entries.map (·.1)

/-- Whether a place lies below another. -/
def isBelow (top q : Place) : Bool := isWithin top q && q != top

theorem isBelow_iff : isBelow top q = true ↔ ∃ r ≠ [], q = top ++ r := by
  rw [isBelow, Bool.and_eq_true, isWithin, List.isPrefixOf_iff_prefix,
    bne_iff_ne]
  constructor
  · rintro ⟨⟨r, rfl⟩, hne⟩
    exact ⟨r, by rintro rfl; simp at hne, rfl⟩
  · rintro ⟨r, hr, rfl⟩
    exact ⟨List.prefix_append _ _, by simpa using hr⟩

theorem ne_nil_of_isBelow (h : isBelow top q = true) : q ≠ [] := by
  obtain ⟨r, hr, rfl⟩ := isBelow_iff.1 h
  exact fun hnil => hr (List.append_eq_nil_iff.1 hnil).2

theorem mem_places_iff (hq : q ≠ []) : q ∈ t.places ↔ t.entry? q ≠ none := by
  constructor
  · intro h
    obtain ⟨⟨_, e⟩, hmem, rfl⟩ := List.mem_map.1 h
    exact entry?_ne_none_of_mem hmem
  · intro h
    obtain ⟨e, he⟩ := Option.ne_none_iff_exists'.1 h
    exact List.mem_map.2 ⟨_, mem_of_entry? hq he, rfl⟩

/-- No place below a directory stands twice in a tree. -/
def OnceBelow (top : Place) (t : FileTree) : Prop :=
  (t.places.filter (isBelow top)).Nodup

theorem places_putEntry (q : Place) (e : Entry) (entries : List (Place × Entry)) :
    (putEntry q e entries).map (·.1) = entries.map (·.1) ∨
      q ∉ entries.map (·.1) ∧
        (putEntry q e entries).map (·.1) = entries.map (·.1) ++ [q] := by
  induction entries with
  | nil => exact .inr ⟨List.not_mem_nil, rfl⟩
  | cons x xs ih =>
      obtain ⟨place, old⟩ := x
      rw [putEntry]
      by_cases h : place = q
      · rw [if_pos h]
        exact .inl rfl
      · rw [if_neg h]
        rcases ih with ih | ⟨hnot, ih⟩
        · exact .inl (congrArg (place :: ·) ih)
        · refine .inr ⟨?_, congrArg (place :: ·) ih⟩
          rw [List.map_cons, List.mem_cons, not_or]
          exact ⟨Ne.symm h, hnot⟩

theorem OnceBelow.put (h : t.OnceBelow top) (q : Place) (e : Entry) :
    (t.put q e).OnceBelow top := by
  rw [OnceBelow, places, FileTree.put]
  rcases places_putEntry q e t.entries with hsame | ⟨hnot, hmore⟩
  · rw [hsame]
    exact h
  · rw [hmore, List.filter_append]
    refine List.Nodup.append h ((List.nodup_singleton q).filter _) ?_
    intro r hr hr'
    cases List.mem_singleton.1 (List.mem_filter.1 hr').1
    exact hnot (List.mem_filter.1 hr).1

theorem OnceBelow.without (h : t.OnceBelow top) (gone : Place → Bool) :
    (t.without gone).OnceBelow top := by
  have hsub : (t.without gone).places.Sublist t.places :=
    List.filter_sublist.map _
  exact h.sublist (hsub.filter _)

/-! ## Trees that differ below a directory -/

/-- Two trees with the same entries everywhere but below a directory. -/
structure AlikeOutside (top : Place) (t t' : FileTree) : Prop where
  current : t'.current = t.current
  entry : ∀ q, isBelow top q = false → t'.entry? q = t.entry? q

theorem AlikeOutside.refl (top : Place) (t : FileTree) : t.AlikeOutside top t :=
  ⟨rfl, fun _ _ => rfl⟩

theorem AlikeOutside.put (h : AlikeOutside top t t') (hq : isBelow top q = true)
    (e : Entry) : AlikeOutside top t (t'.put q e) := by
  refine ⟨h.current, fun r hr => ?_⟩
  rw [entry?_put (ne_nil_of_isBelow hq), if_neg, h.entry r hr]
  rintro rfl
  rw [hq] at hr
  cases hr

theorem AlikeOutside.without (h : AlikeOutside top t t') {gone : Place → Bool}
    (hgone : ∀ q, gone q = true → isBelow top q = true) :
    AlikeOutside top t (t'.without gone) := by
  refine ⟨h.current, fun r hr => ?_⟩
  by_cases hnil : r = []
  · rw [hnil, entry?_nil, entry?_nil]
  · rw [entry?_without _ hnil, if_neg, h.entry r hr]
    intro hgone'
    rw [hgone r hgone'] at hr
    cases hr

/-- Where nothing is below a directory, the directories of the tree are all
those outside, which stay. -/
theorem AlikeOutside.keeps (h : AlikeOutside top t t')
    (hnothing : ∀ q, isBelow top q = true → t.entry? q = none) :
    t.Keeps t' := by
  refine ⟨h.current, fun q hq => ?_⟩
  cases hbelow : isBelow top q with
  | false => rw [h.entry q hbelow, hq]
  | true =>
      rw [hnothing q hbelow] at hq
      cases hq

/-! ## Making and removing a directory -/

/-- A directory is made in one that is there, unless it is there itself. -/
theorem makeDirectories_child {name : String}
    (hq : t.resolve (p.child name) = .ok q) :
    (t.entry? q = none → t.makeDirectories (p.child name) =
      .ok (t.put q .directory)) ∧
    (t.entry? q = some .directory →
      t.makeDirectories (p.child name) = .ok t) := by
  have hnames : (p.child name).names.reverse = name :: p.names.reverse := by
    rw [FilePath.child, List.reverse_concat]
  have hpath : (⟨p.start, (name :: p.names.reverse).reverse⟩ : FilePath) =
      p.child name := by
    rw [List.reverse_cons, List.reverse_reverse, FilePath.child]
  have hstart : (p.child name).start = p.start := rfl
  rw [makeDirectories, hnames, hstart, makeAll, hpath, makeDirectory, hq, ok_bind]
  constructor
  · intro hnone
    rw [hnone]
    rfl
  · intro hdirectory
    rw [hdirectory]
    change (t.isDirectory (p.child name) >>= fun there =>
      if there = true then .ok t else .error .exists) = _
    rw [isDirectory_eq hq, hdirectory]
    rfl

theorem clear_eq (hq : t.resolve p = .ok q)
    (hdirectory : t.entry? q = some .directory) :
    t.clear p = .ok (t.without (isBelow q)) := by
  rw [clear, hq, ok_bind, hdirectory]
  rfl

theorem removeDirectory_child {name : String} (hname : name ≠ "..")
    (hq : t.resolve (p.child name) = .ok q)
    (hdirectory : t.entry? q = some .directory)
    (hempty : ∀ r ∈ t.places, isBelow q r = false) :
    t.removeDirectory (p.child name) = .ok (t.without (· == q)) := by
  have hnames : (p.child name).names ≠ [] := by simp [FilePath.child]
  have hlast : (p.child name).name? ≠ some ".." := by
    simpa [FilePath.child, FilePath.name?] using hname
  have hnone : t.entries.any (fun x => isWithin q x.1 && x.1 != q) = false := by
    rw [List.any_eq_false]
    intro x hx hbelow
    have := hempty _ (List.mem_map_of_mem hx)
    exact Bool.false_ne_true (this.symm.trans hbelow)
  rw [removeDirectory, hq, ok_bind, hdirectory]
  dsimp only
  rw [if_neg hnames, hnone, Bool.or_false, if_neg (by simpa using hlast)]
  rfl

/-- A directory is removed with all that is in it, once it is empty. -/
theorem exists_remove {name : String} (hname : name ≠ "..")
    (hq : t.resolve (p.child name) = .ok q) (hne : q ≠ [])
    (hdirectory : t.entry? q = some .directory)
    (hagain : (t.without (isBelow q)).resolve (p.child name) = .ok q) :
    ∃ t', t.clear (p.child name) = .ok (t.without (isBelow q)) ∧
      (t.without (isBelow q)).removeDirectory (p.child name) = .ok t' ∧
      t'.current = t.current ∧
      (∀ r ≠ [], t'.entry? r = if isWithin q r then none else t.entry? r) ∧
      ∀ top, t.OnceBelow top → t'.OnceBelow top := by
  have hstill : entry? (t.without (isBelow q)) q = some .directory := by
    rw [entry?_without _ hne, isBelow]
    simpa using hdirectory
  have hempty : ∀ r ∈ (t.without (isBelow q)).places, isBelow q r = false := by
    intro r hr
    obtain ⟨x, hx, rfl⟩ := List.mem_map.1 hr
    simpa using (List.mem_filter.1 hx).2
  refine ⟨(t.without (isBelow q)).without (· == q), clear_eq hq hdirectory,
    removeDirectory_child hname hagain hstill hempty, rfl, fun r hr => ?_,
    fun top honce => (honce.without _).without _⟩
  rw [entry?_without_self hne, entry?_without _ hr, isBelow]
  by_cases hself : r = q
  · simp [hself, isWithin]
  · simp [hself]

/-! ## Listing a directory -/

/-- The name of a place in a directory. -/
def nameIn? (top q : Place) : Option String :=
  if q.dropLast = top then q.getLast? else none

theorem nameIn?_eq_some_iff {name : String} :
    nameIn? top q = some name ↔ q = top ++ [name] := by
  rw [nameIn?]
  constructor
  · intro h
    split at h
    · next hlast =>
        rw [← hlast, List.dropLast_append_getLast? name h]
    · cases h
  · rintro rfl
    rw [List.dropLast_concat, if_pos rfl, List.getLast?_concat]

theorem filterMap_nameIn? (top : Place) (qs : List Place) :
    (qs.filter (isBelow top)).filterMap (nameIn? top) =
      qs.filterMap (nameIn? top) := by
  rw [List.filterMap_filter]
  congr 1
  funext q
  cases hbelow : isBelow top q with
  | true => rw [if_pos rfl]
  | false =>
      rw [if_neg Bool.false_ne_true]
      cases hname : nameIn? top q with
      | none => rfl
      | some name =>
          rw [isBelow_iff.2 ⟨[name], by simp, nameIn?_eq_some_iff.1 hname⟩] at hbelow
          cases hbelow

/-- A directory gives the name of everything in it, and each of them once. -/
theorem children_eq_ok (hq : t.resolve p = .ok top)
    (hdirectory : t.entry? top = some .directory) (honce : t.OnceBelow top) :
    ∃ names, t.children p = .ok names ∧ names.Nodup ∧
      ∀ name, name ∈ names ↔ t.entry? (top ++ [name]) ≠ none := by
  have hchildren : t.children p = .ok (t.order.arrange top
      (t.entries.filterMap fun x => nameIn? top x.1)) := by
    rw [children, hq, ok_bind, hdirectory]
    rfl
  have hnames : (t.entries.filterMap fun x => nameIn? top x.1) =
      (t.places.filter (isBelow top)).filterMap (nameIn? top) := by
    rw [filterMap_nameIn?, places, List.filterMap_map]
    rfl
  rw [hnames] at hchildren
  have hperm := t.order.perm top
    ((t.places.filter (isBelow top)).filterMap (nameIn? top))
  refine ⟨_, hchildren, hperm.nodup_iff.2 ?_, fun name => ?_⟩
  · refine honce.filterMap fun q q' name hname hname' => ?_
    rw [nameIn?_eq_some_iff.1 hname, nameIn?_eq_some_iff.1 hname']
  · rw [hperm.mem_iff, filterMap_nameIn?, List.mem_filterMap,
      ← mem_places_iff (by simp)]
    simp [nameIn?_eq_some_iff]

end Cutlist.FileTree
