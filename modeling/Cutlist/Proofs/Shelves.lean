import Cutlist.Proofs.DirectoryChanges
import Cutlist.Proofs.StoredProjects
import Mathlib.Logic.Function.Basic

/-!
# What a library holds

A library is told by its shelf: which project is kept under which identifier.
From the shelf follows everything that is below the directory of the library,
and every operation is told by what it does to the shelf. That a project is
found again under its identifier needs the identifier to be the name of one
directory: neither a way through several, nor one that leads up.
-/

namespace Cutlist

open FileTree

/-! ## Names as identifiers -/

/-- The file with the project of an identifier. -/
def Library.fileOf (l : Library) (id : String) : FilePath :=
  (l.placeOf id).child fileName

/-- An identifier for which the file system can make a directory in that of the
library, with the file of a project in it. -/
structure Library.Accepts (l : Library) (id : String) : Prop where
  nonempty : id ≠ ""
  notHere : id ≠ "."
  notUp : id ≠ ".."
  noSlash : '/' ∉ id.toList
  noNull : '\x00' ∉ id.toList
  short : id.utf8ByteSize ≤ maxName
  fits : (l.fileOf id).toText.utf8ByteSize ≤ maxPath

/-! ## Changes of files -/

namespace Library

section Changes

variable {α β : Type} {c : Change α} {t t' : FileTree} {a : α} {fault : Fault}

/-- How a change of files ends, and the files that it leaves. -/
def Change.outcome (c : Change α) (t : FileTree) : Except Fault α × FileTree :=
  c.run.run t

theorem outcome_bind (c : Change α) (f : α → Change β) :
    Change.outcome (c >>= f) t = match c.outcome t with
      | (.ok a, t') => (f a).outcome t'
      | (.error fault, t') => (.error fault, t') := by
  simp only [Change.outcome, ExceptT.run_bind, StateT.run_bind]
  rcases c.run.run t with ⟨result, t'⟩
  cases result <;> rfl

theorem outcome_bind_ok (h : c.outcome t = (.ok a, t')) (f : α → Change β) :
    Change.outcome (c >>= f) t = (f a).outcome t' := by
  rw [outcome_bind, h]

theorem outcome_bind_error (h : c.outcome t = (.error fault, t'))
    (f : α → Change β) : Change.outcome (c >>= f) t = (.error fault, t') := by
  rw [outcome_bind, h]

theorem outcome_step {op : FileTree → Except FileError FileTree}
    (h : op t = .ok t') : (step op).outcome t = (.ok (), t') := by
  have hget : Change.outcome get t = (.ok t, t) := rfl
  refine (outcome_bind_ok hget _).trans ?_
  rw [h]
  rfl

theorem outcome_lift (result : Except Fault α) (t : FileTree) :
    Change.outcome (liftM result) t = (result, t) := by
  cases result <;> rfl

end Changes

end Library

/-! ## Shelves -/

/-- The projects that are kept, by their identifiers. -/
abbrev Shelf := String → Option Project

/-- What is below the directory of a library that keeps the projects of a
shelf: a directory for each, with the file of the project in it. -/
def Shelf.entry? (shelf : Shelf) : Place → Option Entry
  | [id] => (shelf id).map fun _ => .directory
  | [id, name] => if name = Library.fileName then
      (shelf id).map fun p => .file (Json.write p.toJson).toUTF8
    else none
  | _ => none

section Update

variable {shelf : Shelf} {id : String} {p : Project}

theorem Shelf.entry?_saved (q : Place) :
    Shelf.entry? (Function.update shelf id (some p)) q =
      if q = [id, Library.fileName] then
        some (.file (Json.write p.toJson).toUTF8)
      else if q = [id] then some .directory else shelf.entry? q := by
  match q with
  | [] => simp [Shelf.entry?]
  | [x] => by_cases hx : x = id <;> simp [Shelf.entry?, hx]
  | [x, name] =>
      by_cases hx : x = id <;> by_cases hname : name = Library.fileName <;>
        simp [Shelf.entry?, hx, hname]
  | _ :: _ :: _ :: _ => simp [Shelf.entry?]

theorem Shelf.entry?_deleted {q : Place} (hq : q ≠ []) :
    Shelf.entry? (Function.update shelf id none) q =
      if isWithin [id] q then none else shelf.entry? q := by
  match q with
  | [] => exact absurd rfl hq
  | [x] | [x, _] =>
      rcases eq_or_ne x id with rfl | hx
      · simp [Shelf.entry?, isWithin]
      · simp [Shelf.entry?, isWithin, hx, hx.symm]
  | _ :: _ :: _ :: _ => simp [Shelf.entry?]

end Update

namespace Library

/-- The directory of a library is there, and nothing is in it. -/
structure Empty (l : Library) (t : FileTree) (top : Place) : Prop where
  resolve : t.resolve l.directory = .ok top
  directory : t.entry? top = some .directory
  nothing : ∀ q, isBelow top q = true → t.entry? q = none

/-- A tree in which a library keeps the projects of a shelf, made from one in
which it was empty. -/
structure Holds (l : Library) (bare : FileTree) (top : Place) (shelf : Shelf)
    (t : FileTree) : Prop where
  empty : l.Empty bare top
  outside : AlikeOutside top bare t
  inside : ∀ q ≠ [], t.entry? (top ++ q) = shelf.entry? q
  once : t.OnceBelow top
  stored : ∀ id p, shelf id = some p → l.Accepts id ∧ p.Stored

section Operations

variable {l : Library} {bare t t' : FileTree} {top : Place} {shelf : Shelf}
variable {id : String} {p : Project}

theorem holds_of_empty (h : l.Empty t top) :
    l.Holds t top (fun _ => none) t := by
  refine ⟨h, .refl top t, fun q hq => ?_, ?_, fun _ _ => nofun⟩
  · rw [h.nothing _ (isBelow_iff.2 ⟨q, hq, rfl⟩), Shelf.entry?.eq_def]
    split <;> simp
  · have hnone : t.places.filter (isBelow top) = [] := by
      rw [List.filter_eq_nil_iff]
      intro q hq hbelow
      exact (mem_places_iff (ne_nil_of_isBelow hbelow)).1 hq
        (h.nothing q hbelow)
    rw [OnceBelow, hnone]
    exact List.nodup_nil

/-! ## Where a project is kept -/

theorem Accepts.placeOf (h : l.Accepts id) :
    l.placeOf id = l.directory.child id := by
  rw [Library.placeOf, FilePath.ofString_name h.nonempty h.notHere h.noSlash]
  rfl

/-- The path of a project's directory leads to its name below the library's. -/
theorem Empty.resolve_place (h : l.Empty bare top)
    (hout : AlikeOutside top bare t) (hid : l.Accepts id) :
    t.resolve (l.placeOf id) = .ok (top ++ [id]) := by
  have hkeeps := hout.keeps h.nothing
  have htop := hkeeps.resolve h.resolve
  obtain ⟨hspell, hpass, rfl⟩ := resolve_eq_ok_iff.1 htop
  have hfits := hid.fits
  rw [fileOf, FilePath.toText_child (by simp [hid.placeOf, FilePath.child]),
    String.utf8ByteSize_append, String.utf8ByteSize_append] at hfits
  rw [hid.placeOf] at hfits ⊢
  refine (resolve_child_iff hid.notUp).2 ⟨⟨?_, by omega⟩, hpass,
    hkeeps.directory _ h.directory, hid.short, rfl⟩
  rw [FilePath.child, List.any_append, hspell.noNull]
  simpa using hid.noNull

/-- The path of a project's file leads into its directory. -/
theorem resolve_file (hid : l.Accepts id)
    (hplace : t.resolve (l.placeOf id) = .ok (top ++ [id]))
    (hdirectory : t.entry? (top ++ [id]) = some .directory) :
    t.resolve (l.fileOf id) = .ok (top ++ [id, fileName]) := by
  obtain ⟨hspell, hpass, htarget⟩ := resolve_eq_ok_iff.1 hplace
  rw [htarget] at hdirectory
  refine (resolve_child_iff (by decide)).2 ⟨⟨?_, hid.fits⟩, hpass, hdirectory,
    by decide, ?_⟩
  · rw [FilePath.child, List.any_append, hspell.noNull]
    decide
  · rw [← htarget, List.append_assoc]
    rfl

namespace Holds

theorem resolve (h : l.Holds bare top shelf t) :
    t.resolve l.directory = .ok top :=
  (h.outside.keeps h.empty.nothing).resolve h.empty.resolve

theorem directory (h : l.Holds bare top shelf t) :
    t.entry? top = some .directory :=
  (h.outside.keeps h.empty.nothing).directory _ h.empty.directory

theorem resolve_place (h : l.Holds bare top shelf t) (hid : l.Accepts id) :
    t.resolve (l.placeOf id) = .ok (top ++ [id]) :=
  h.empty.resolve_place h.outside hid

theorem entry_place (h : l.Holds bare top shelf t) (id : String) :
    t.entry? (top ++ [id]) = (shelf id).map fun _ => .directory :=
  h.inside [id] (List.cons_ne_nil _ _)

theorem entry_file (h : l.Holds bare top shelf t) (id : String) :
    t.entry? (top ++ [id, fileName]) =
      (shelf id).map fun p => .file (Json.write p.toJson).toUTF8 := by
  rw [h.inside [id, fileName] (List.cons_ne_nil _ _), Shelf.entry?, if_pos rfl]

/-! ## Loading -/

theorem has_place (h : l.Holds bare top shelf t) (hid : l.Accepts id) :
    t.has (l.placeOf id) = .ok (shelf id).isSome := by
  rw [has_eq (h.resolve_place hid), h.entry_place, Option.isSome_map]

theorem isDirectory_place (h : l.Holds bare top shelf t)
    (hp : shelf id = some p) : t.isDirectory (l.placeOf id) = .ok true := by
  rw [isDirectory_eq (h.resolve_place (h.stored _ _ hp).1), h.entry_place, hp]
  rfl

theorem loadFrom (h : l.Holds bare top shelf t) (hp : shelf id = some p)
    (now : Timestamp) : loadFrom t now (l.placeOf id) = .ok p := by
  obtain ⟨hid, hstored⟩ := h.stored _ _ hp
  have hfile := resolve_file hid (h.resolve_place hid)
    (by rw [h.entry_place, hp]; rfl)
  have hentry : t.entry? (top ++ [id, fileName]) =
      some (.file (Json.write p.toJson).toUTF8) := by
    rw [h.entry_file, hp]
    rfl
  have hpath : (projectFile t (l.placeOf id)).mapError Fault.file =
      .ok (l.fileOf id) := by
    rw [mapError_eq_ok, projectFile, h.isDirectory_place hp, ok_bind]
    rfl
  have hhas : (t.has (l.fileOf id)).mapError Fault.file = .ok true := by
    rw [mapError_eq_ok, has_eq hfile, hentry]
    rfl
  rw [Library.loadFrom, hpath, ok_bind, hhas, ok_bind, if_pos rfl,
    mapError_eq_ok.2 (read_eq hfile hentry), ok_bind]
  exact parse_written hstored now _

theorem find (h : l.Holds bare top shelf t) (hid : l.Accepts id) :
    l.find t id =
      if (shelf id).isSome then .ok (l.placeOf id)
        else .error (.noProject id) := by
  rw [Library.find, mapError_eq_ok.2 (h.has_place hid), ok_bind]
  rfl

theorem load (h : l.Holds bare top shelf t) (hp : shelf id = some p)
    (now : Timestamp) : l.load t now id = .ok p := by
  rw [Library.load, h.find (h.stored _ _ hp).1, hp]
  exact h.loadFrom hp now

theorem load_none (h : l.Holds bare top shelf t) (hid : l.Accepts id)
    (hnone : shelf id = none) (now : Timestamp) :
    l.load t now id = .error (.noProject id) := by
  rw [Library.load, h.find hid, hnone]
  rfl

/-! ## Saving -/

/-- The directory of a project is there after it has been made, whether or not
it was there before. -/
theorem makeDirectories (h : l.Holds bare top shelf t) (hid : l.Accepts id) :
    ∃ t', t.makeDirectories (l.placeOf id) = .ok t' ∧
      AlikeOutside top bare t' ∧ t'.OnceBelow top ∧
      ∀ r, t'.entry? r =
        if r = top ++ [id] then some .directory else t.entry? r := by
  have hplace := h.resolve_place hid
  have hentry := h.entry_place id
  have hbelow : isBelow top (top ++ [id]) = true :=
    isBelow_iff.2 ⟨[id], List.cons_ne_nil _ _, rfl⟩
  rw [hid.placeOf] at hplace ⊢
  obtain ⟨hmake, hthere⟩ := makeDirectories_child hplace
  cases hp : shelf id with
  | none =>
      rw [hp] at hentry
      exact ⟨_, hmake hentry, h.outside.put hbelow _, h.once.put _ _,
        entry?_put (ne_nil_of_isBelow hbelow) _⟩
  | some p =>
      rw [hp] at hentry
      refine ⟨t, hthere hentry, h.outside, h.once, fun r => ?_⟩
      split
      · next hr => rw [hr, hentry]; rfl
      · rfl

/-- What is kept under an identifier does not matter to the others. -/
theorem stored_update (h : l.Holds bare top shelf t) {v : Option Project}
    (hv : ∀ p, v = some p → l.Accepts id ∧ p.Stored) (other : String)
    (p : Project) (hp : Function.update shelf id v other = some p) :
    l.Accepts other ∧ p.Stored := by
  rw [Function.update_apply] at hp
  split at hp
  · next hother => exact hother ▸ hv p hp
  · exact h.stored other p hp

theorem save (h : l.Holds bare top shelf t) (hid : l.Accepts id)
    (hp : p.id = .text id) (hstored : p.Stored) :
    ∃ t', (l.save p).outcome t = (.ok (l.fileOf id), t') ∧
      l.Holds bare top (Function.update shelf id (some p)) t' := by
  obtain ⟨t', hmake, houtside, honce, hentry⟩ := h.makeDirectories hid
  let content := (Json.write p.toJson).toUTF8
  have hfile := resolve_file hid (h.empty.resolve_place houtside hid)
    (by rw [hentry, if_pos rfl])
  have hbelow : isBelow top (top ++ [id, fileName]) = true :=
    isBelow_iff.2 ⟨_, List.cons_ne_nil _ _, rfl⟩
  have hother : t'.entry? (top ++ [id, fileName]) ≠ some .directory := by
    rw [hentry, if_neg (by simp), h.entry_file]
    cases shelf id <;> exact nofun
  have hwrite : t'.write (l.fileOf id) content =
      .ok (t'.put (top ++ [id, fileName]) (.file content)) :=
    write_eq_ok_iff.2 ⟨_, hfile, hother, rfl⟩
  refine ⟨t'.put (top ++ [id, fileName]) (.file content), ?_, h.empty,
    houtside.put hbelow _, fun q hq => ?_, honce.put _ _, h.stored_update ?_⟩
  · have hidOf : Change.outcome (liftM (idOf p)) t = (.ok id, t) := by
      rw [outcome_lift, idOf, hp]
    exact (outcome_bind_ok hidOf _).trans
      ((outcome_bind_ok (outcome_step hmake) _).trans
        (outcome_bind_ok (outcome_step hwrite) _))
  · rw [entry?_put (ne_nil_of_isBelow hbelow), hentry, Shelf.entry?_saved,
      h.inside q hq]
    simp only [List.append_cancel_left_eq]
    rfl
  · rintro _ ⟨⟩
    exact ⟨hid, hstored⟩

/-! ## Deleting -/

theorem delete (h : l.Holds bare top shelf t) (hp : shelf id = some p) :
    ∃ t', (l.delete id).outcome t = (.ok (), t') ∧
      l.Holds bare top (Function.update shelf id none) t' := by
  have hid := (h.stored _ _ hp).1
  have hbelow : ∀ r, isWithin (top ++ [id]) r = true → isBelow top r = true := by
    intro r hr
    obtain ⟨below, rfl⟩ := List.isPrefixOf_iff_prefix.1 hr
    exact isBelow_iff.2 ⟨[id] ++ below, by simp, by simp⟩
  have hcleared : AlikeOutside top bare (t.without (isBelow (top ++ [id]))) :=
    h.outside.without fun r hr => hbelow r (Bool.and_eq_true_iff.1 hr).1
  have hagain := h.empty.resolve_place hcleared hid
  have hplace := h.resolve_place hid
  rw [hid.placeOf] at hplace hagain
  obtain ⟨t', hclear, hremove, hcurrent, hentry, honce⟩ :=
    exists_remove hid.notUp hplace (by simp)
      (by rw [h.entry_place, hp]; rfl) hagain
  rw [← hid.placeOf] at hclear hremove
  refine ⟨t', ?_, h.empty, ⟨hcurrent.trans h.outside.current, fun r hr => ?_⟩,
    fun q hq => ?_, honce top h.once,
    h.stored_update fun _ hv => nomatch hv⟩
  · have hget : Change.outcome get t = (.ok t, t) := rfl
    have hfind : Change.outcome (liftM (l.find t id)) t =
        (.ok (l.placeOf id), t) := by
      rw [outcome_lift, h.find hid, hp]
      rfl
    exact (outcome_bind_ok hget _).trans ((outcome_bind_ok hfind _).trans
      ((outcome_bind_ok (outcome_step hclear) _).trans (outcome_step hremove)))
  · by_cases hnil : r = []
    · rw [hnil, entry?_nil, entry?_nil]
    · rw [hentry r hnil, if_neg, h.outside.entry r hr]
      intro hwithin
      rw [hbelow r hwithin] at hr
      cases hr
  · have hwithin : isWithin (top ++ [id]) (top ++ q) = isWithin [id] q := by
      rw [Bool.eq_iff_iff, isWithin, isWithin, List.isPrefixOf_iff_prefix,
        List.isPrefixOf_iff_prefix, List.prefix_append_right_inj]
    rw [hentry _ (by simp [hq]), hwithin, Shelf.entry?_deleted hq, h.inside q hq]

theorem delete_none (h : l.Holds bare top shelf t) (hid : l.Accepts id)
    (hnone : shelf id = none) :
    (l.delete id).outcome t = (.error (.noProject id), t) := by
  have hfind : Change.outcome (liftM (l.find t id)) t =
      (.error (.noProject id), t) := by
    rw [outcome_lift, h.find hid, hnone]
    rfl
  have hget : Change.outcome get t = (.ok t, t) := rfl
  exact (outcome_bind_ok hget _).trans (outcome_bind_error hfind _)

/-! ## Listing -/

/-- A look at directories of projects passes none over. -/
theorem visit (h : l.Holds bare top shelf t) (now : Timestamp)
    {ids : List String} (hids : ∀ id ∈ ids, shelf id ≠ none) :
    visit t now (ids.map l.directory.child) =
      ⟨.ok (ids.filterMap shelf), []⟩ := by
  induction ids with
  | nil => rfl
  | cons id ids ih =>
      obtain ⟨hid, hrest⟩ := List.forall_mem_cons.1 hids
      obtain ⟨p, hp⟩ := Option.ne_none_iff_exists'.1 hid
      have hplace := (h.stored _ _ hp).1.placeOf
      have hdirectory := h.isDirectory_place hp
      have hload := h.loadFrom hp now
      rw [hplace] at hdirectory hload
      rw [List.map_cons, Library.visit, hdirectory]
      dsimp only
      rw [hload]
      dsimp only
      rw [ih hrest, List.filterMap_cons_some hp]
      rfl

end Holds

/-- The order of a list, when the file system gives the names of directories in
an order of its own: the newer project first, and of two that are equally old
the one whose directory is given first. -/
def Precedes (names : List String) (a b : String × Project) : Prop :=
  b.2.createdAt.instant < a.2.createdAt.instant ∨
    a.2.createdAt.instant = b.2.createdAt.instant ∧ [a.1, b.1].Sublist names

/-- Sorting keeps the order of the directories where it does not matter. -/
theorem pairwise_precedes {names : List String} {pairs : List (String × Project)}
    (h : pairs.Pairwise fun a b => [a.1, b.1].Sublist names) :
    ∃ sorted : List (String × Project), sorted.Perm pairs ∧
      newestFirst (pairs.map (·.2)) = sorted.map (·.2) ∧
      sorted.Pairwise (Precedes names) := by
  let le (a b : String × Project) : Bool :=
    decide (b.2.createdAt.instant ≤ a.2.createdAt.instant)
  have htrans : ∀ a b c, le a b = true → le b c = true → le a c = true := by
    intro a b c hab hbc
    exact decide_eq_true
      (Int.le_trans (of_decide_eq_true hbc) (of_decide_eq_true hab))
  have htotal : ∀ a b, (le a b || le b a) = true := by
    intro a b
    rw [Bool.or_eq_true]
    exact (Int.le_total _ _).imp decide_eq_true decide_eq_true
  refine ⟨pairs.mergeSort le, List.mergeSort_perm _ _, ?_, ?_⟩
  · rw [newestFirst, ← List.map_mergeSort]
    exact fun _ _ _ _ => rfl
  · refine List.pairwise_iff_forall_sublist.2 fun {a b} hab => ?_
    have hle := List.pairwise_iff_forall_sublist.1
      (List.pairwise_mergeSort htrans htotal pairs) hab
    rcases Int.lt_or_eq_of_le (of_decide_eq_true hle) with hlt | heq
    · exact .inl hlt
    -- What is as old as they are stands as it stood before it was sorted.
    let same (x : String × Project) : Bool :=
      decide (x.2.createdAt.instant = b.2.createdAt.instant)
    have hold : (pairs.filter same).Pairwise fun x y => le x y = true := by
      refine List.pairwise_of_forall_mem_list fun x hx y hy => ?_
      have hx := of_decide_eq_true (List.mem_filter.1 hx).2
      have hy := of_decide_eq_true (List.mem_filter.1 hy).2
      exact decide_eq_true (by omega)
    have hkept := (List.sublist_mergeSort htrans htotal hold
      List.filter_sublist).filter same
    rw [List.filter_filter] at hkept
    simp only [Bool.and_self] at hkept
    have hsame := hkept.eq_of_length
      (((List.mergeSort_perm pairs le).filter same).length_eq).symm
    have hboth : [a, b].filter same = [a, b] := by simp [same, heq]
    have hab := hab.filter same
    rw [← hsame, hboth] at hab
    exact .inr ⟨heq.symm, List.pairwise_iff_forall_sublist.1 h
      (hab.trans List.filter_sublist)⟩

/-- The projects of directories, each under its name. -/
theorem exists_newestFirst (ids : List String)
    (project? : String → Option Project) :
    ∃ pairs : List (String × Project), pairs.Pairwise (Precedes ids) ∧
      (∀ id p, (id, p) ∈ pairs ↔ id ∈ ids ∧ project? id = some p) ∧
      newestFirst (ids.filterMap project?) = pairs.map (·.2) := by
  let pairs := ids.filterMap fun id => (project? id).map fun p => (id, p)
  have hpairs : pairs.Pairwise fun a b => [a.1, b.1].Sublist ids := by
    have hids : ids.Pairwise fun a b => [a, b].Sublist ids :=
      List.pairwise_iff_forall_sublist.2 id
    refine hids.filterMap _ fun a a' haa' b hb b' hb' => ?_
    obtain ⟨_, _, rfl⟩ := Option.map_eq_some_iff.1 hb
    obtain ⟨_, _, rfl⟩ := Option.map_eq_some_iff.1 hb'
    exact haa'
  have hprojects : pairs.map (·.2) = ids.filterMap project? := by
    rw [List.map_filterMap]
    congr 1
    funext id
    cases project? id <;> rfl
  obtain ⟨sorted, hperm, hsorted, hprecedes⟩ := pairwise_precedes hpairs
  rw [hprojects] at hsorted
  refine ⟨sorted, hprecedes, fun id p => ?_, hsorted⟩
  rw [hperm.mem_iff, List.mem_filterMap]
  constructor
  · rintro ⟨id', hmem, hid'⟩
    obtain ⟨p', hp', heq⟩ := Option.map_eq_some_iff.1 hid'
    cases heq
    exact ⟨hmem, hp'⟩
  · rintro ⟨hmem, hp⟩
    refine ⟨id, hmem, ?_⟩
    rw [hp]
    rfl

/-- A list is a look at everything in the library's directory, sorted. -/
theorem list_eq {names : List String} (hresolve : t.resolve l.directory = .ok top)
    (hdirectory : t.entry? top = some .directory)
    (hnames : t.children l.directory = .ok names) (now : Timestamp) :
    l.list t now =
      ⟨(Library.visit t now (names.map l.directory.child)).result.map newestFirst,
        (Library.visit t now (names.map l.directory.child)).skipped⟩ := by
  have hhas : t.has l.directory = .ok true := by
    rw [has_eq hresolve, hdirectory]
    rfl
  rw [Library.list, hhas]
  dsimp only
  rw [hnames]

/-- A list gives all projects of the shelf, each once, and passes none over. -/
theorem Holds.list (h : l.Holds bare top shelf t) (now : Timestamp) :
    ∃ (names : List String) (pairs : List (String × Project)),
      t.children l.directory = .ok names ∧ names.Nodup ∧
      pairs.Pairwise (Precedes names) ∧
      (∀ id p, (id, p) ∈ pairs ↔ shelf id = some p) ∧
      l.list t now = ⟨.ok (pairs.map (·.2)), []⟩ := by
  obtain ⟨ids, hids, hnodup, hmem⟩ :=
    children_eq_ok h.resolve h.directory h.once
  have hshelf : ∀ id, id ∈ ids ↔ shelf id ≠ none := by
    intro id
    rw [hmem, h.entry_place, ne_eq, ne_eq, Option.map_eq_none_iff]
  obtain ⟨pairs, hprecedes, hpairs, hsorted⟩ := exists_newestFirst ids shelf
  refine ⟨ids, pairs, hids, hnodup, hprecedes, fun id p => ?_, ?_⟩
  · rw [hpairs, hshelf, and_iff_right_iff_imp]
    intro hp
    rw [hp]
    exact Option.some_ne_none p
  · rw [list_eq h.resolve h.directory hids,
      h.visit now fun id hid => (hshelf id).1 hid, ← hsorted]
    rfl

end Operations

end Library

end Cutlist
