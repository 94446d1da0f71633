import Cutlist.Proofs.Places

/-!
# What changes files

Each operation on a tree is told by what it leaves at every place: a write sets
one entry, a removal takes entries away, a move takes one entry elsewhere with
all that lies below it. Nothing makes a file of a directory or a directory of a
file, so the paths that led somewhere before a write lead there afterwards.

In a tree that is grounded every entry lies in a directory. Operations that add
entries keep it so, and then nothing lies below a file: a file is moved alone.
-/

namespace Cutlist

namespace FileTree

variable {t t' : FileTree} {p p' : FilePath} {q r : Place} {e : Entry}
variable {content : ByteArray}

/-! ## Entries -/

theorem file_ne_directory (c : ByteArray) :
    some (Entry.file c) ≠ some .directory := nofun

theorem not_directory (h : t.entry? q = some (.file content)) :
    t.entry? q ≠ some .directory := by
  rw [h]
  exact file_ne_directory content

theorem entry_there (h : t.entry? q = some e) : t.entry? q ≠ none := by
  rw [h]
  exact Option.some_ne_none e

@[simp] theorem entry?_nil (t : FileTree) : t.entry? [] = some .directory :=
  if_pos rfl

theorem entry?_of_ne_nil (h : q ≠ []) :
    t.entry? q = (t.entries.find? (·.1 == q)).map (·.2) :=
  if_neg h

theorem ne_nil_of_entry (h : t.entry? q ≠ some .directory) : q ≠ [] := by
  rintro rfl
  exact h (entry?_nil t)

/-- What is in the list of entries is at its place, or something else is. -/
theorem entry?_ne_none_of_mem (h : (q, e) ∈ t.entries) : t.entry? q ≠ none := by
  by_cases hq : q = []
  · simp [hq]
  · rw [entry?_of_ne_nil hq, ne_eq, Option.map_eq_none_iff, List.find?_eq_none]
    exact fun hnone => hnone (q, e) h BEq.rfl

theorem mem_of_entry? (hq : q ≠ []) (h : t.entry? q = some e) :
    (q, e) ∈ t.entries := by
  rw [entry?_of_ne_nil hq, Option.map_eq_some_iff] at h
  obtain ⟨⟨place, e'⟩, hfind, rfl⟩ := h
  have hplace : (place == q) = true :=
    List.find?_some (p := fun x : Place × Entry => x.1 == q) hfind
  rw [← eq_of_beq hplace]
  exact List.mem_of_find?_eq_some hfind

theorem find?_putEntry (q : Place) (e : Entry) (r : Place)
    (entries : List (Place × Entry)) :
    (putEntry q e entries).find? (·.1 == r) =
      if r = q then some (q, e) else entries.find? (·.1 == r) := by
  induction entries with
  | nil => by_cases h : q = r <;> simp [putEntry, h, Ne.symm]
  | cons x xs ih =>
      obtain ⟨place, old⟩ := x
      rw [putEntry]
      by_cases hplace : place = q
      · subst hplace
        by_cases h : place = r <;> simp [h, Ne.symm]
      · by_cases h : r = q
        · subst h
          simp [hplace, ih]
        · simp only [if_neg hplace, List.find?_cons, ih, if_neg h]

theorem entry?_put (h : q ≠ []) (e : Entry) (r : Place) :
    entry? (t.put q e) r = if r = q then some e else t.entry? r := by
  by_cases hr : r = []
  · subst hr
    rw [entry?_nil, if_neg h.symm, entry?_nil]
  · rw [entry?_of_ne_nil hr, entry?_of_ne_nil hr, put, find?_putEntry]
    split <;> rfl

theorem find?_filter_of_keeps (keep : Place → Bool) (h : keep r = true)
    (entries : List (Place × Entry)) :
    (entries.filter fun x => keep x.1).find? (·.1 == r) =
      entries.find? (·.1 == r) := by
  rw [List.find?_filter]
  congr 1
  funext x
  by_cases hx : x.1 = r <;> simp [hx, h]

theorem entry?_without (gone : Place → Bool) (h : r ≠ []) :
    entry? (t.without gone) r = if gone r then none else t.entry? r := by
  rw [entry?_of_ne_nil h, without]
  cases hgone : gone r with
  | true =>
      rw [if_pos rfl, Option.map_eq_none_iff, List.find?_eq_none]
      rintro ⟨place, e⟩ hmem hplace
      have hkept := (List.mem_filter.1 hmem).2
      rw [eq_of_beq hplace] at hkept
      simp [hgone] at hkept
  | false =>
      rw [if_neg Bool.false_ne_true,
        find?_filter_of_keeps (fun q => !gone q) (by rw [hgone]; rfl),
        entry?_of_ne_nil h]

theorem entry?_without_self (h : q ≠ []) :
    entry? (t.without (· == q)) r = if r = q then none else t.entry? r := by
  by_cases hr : r = []
  · subst hr
    rw [entry?_nil, if_neg h.symm, entry?_nil]
  · rw [entry?_without _ hr]
    simp

/-! ## Writing -/

theorem contentAt_ne_directory {old : ByteArray}
    (h : t.contentAt q = .ok old) : t.entry? q ≠ some .directory := by
  intro hentry
  rw [contentAt, hentry] at h
  cases h

theorem contentAt_of_ne_directory (h : t.entry? q ≠ some .directory) :
    ∃ old, t.contentAt q = .ok old := by
  rw [contentAt]
  cases hentry : t.entry? q with
  | none => exact ⟨_, rfl⟩
  | some e =>
      cases e with
      | directory => exact absurd hentry h
      | file old => exact ⟨old, rfl⟩

theorem write_eq_ok_iff : t.write p content = .ok t' ↔
    ∃ q, t.resolve p = .ok q ∧ t.entry? q ≠ some .directory ∧
      t' = t.put q (.file content) := by
  rw [write]
  cases hresolve : t.resolve p with
  | error why => exact ⟨nofun, fun ⟨_, h, _⟩ => nomatch h⟩
  | ok q =>
      constructor
      · intro h
        change (t.contentAt q >>= fun _ => _) = _ at h
        cases hold : t.contentAt q with
        | error why => rw [hold] at h; cases h
        | ok old =>
            rw [hold] at h
            exact ⟨q, rfl, contentAt_ne_directory hold, (Except.ok.inj h).symm⟩
      · rintro ⟨_, hq, hentry, rfl⟩
        cases hq
        obtain ⟨old, hold⟩ := contentAt_of_ne_directory hentry
        change (t.contentAt q >>= fun _ => _) = _
        rw [hold]
        rfl

theorem append_eq_ok (h : t.append p content = .ok t') :
    ∃ q old, t.resolve p = .ok q ∧ t.contentAt q = .ok old ∧
      t' = t.put q (.file (old ++ content)) := by
  rw [append] at h
  cases hresolve : t.resolve p with
  | error why => rw [hresolve] at h; cases h
  | ok q =>
      rw [hresolve] at h
      change (t.contentAt q >>= fun _ => _) = _ at h
      cases hold : t.contentAt q with
      | error why => rw [hold] at h; cases h
      | ok old =>
          rw [hold] at h
          exact ⟨q, old, rfl, hold, (Except.ok.inj h).symm⟩

/-- A file cannot be opened if no place is found for it or if a directory stands
there. -/
theorem append_eq_error {why : FileError} (h : t.append p content = .error why) :
    t.resolve p = .error why ∨
      ∃ q, t.resolve p = .ok q ∧ t.entry? q = some .directory ∧
        why = .isDirectory := by
  rw [append] at h
  cases hresolve : t.resolve p with
  | error why =>
      rw [hresolve] at h
      cases h
      exact .inl rfl
  | ok q =>
      rw [hresolve] at h
      change (t.contentAt q >>= fun _ => _) = _ at h
      refine .inr ⟨q, rfl, ?_⟩
      by_cases hentry : t.entry? q = some .directory
      · rw [contentAt, hentry] at h
        cases h
        exact ⟨hentry, rfl⟩
      · obtain ⟨old, hold⟩ := contentAt_of_ne_directory hentry
        rw [hold] at h
        cases h

theorem makeDirectory_eq_ok_iff : t.makeDirectory p = .ok t' ↔
    ∃ q, t.resolve p = .ok q ∧ t.entry? q = none ∧ t' = t.put q .directory := by
  rw [makeDirectory]
  cases hresolve : t.resolve p with
  | error why => exact ⟨nofun, fun ⟨_, h, _⟩ => nomatch h⟩
  | ok q =>
      rw [ok_bind]
      cases hentry : t.entry? q with
      | none => simp [hentry, pure, Except.pure, eq_comm]
      | some e => simp [hentry]

/-! ## Grounded trees -/

/-- Every entry lies in a directory, and paths start from one. -/
structure Grounded (t : FileTree) : Prop where
  current : t.entry? t.current = some .directory
  above : ∀ q name, t.entry? (q ++ [name]) ≠ none → t.entry? q = some .directory

/-- What lies above something is a directory. -/
theorem Grounded.above_append (h : t.Grounded) {below : Place}
    (hbelow : below ≠ []) (hentry : t.entry? (q ++ below) ≠ none) :
    t.entry? q = some .directory := by
  induction below using List.reverseRecOn with
  | nil => exact absurd rfl hbelow
  | append_singleton init last ih =>
      rw [← List.append_assoc] at hentry
      have hinit := h.above _ _ hentry
      by_cases hnil : init = []
      · rwa [hnil, List.append_nil] at hinit
      · exact ih hnil (entry_there hinit)

theorem Grounded.startOf (h : t.Grounded) (p : FilePath) :
    t.entry? (t.startOf p) = some .directory := by
  rw [FileTree.startOf]
  split
  · exact h.current
  · exact entry?_nil t

/-- A path that leads to nothing leads into a directory. -/
theorem Grounded.above_of_resolve (h : t.Grounded) (hq : t.resolve p = .ok q)
    (hnone : t.entry? q = none) :
    ∃ place name, q = place ++ [name] ∧ t.entry? place = some .directory := by
  obtain ⟨_, hpass, rfl⟩ := resolve_eq_ok_iff.1 hq
  rw [target] at hnone ⊢
  rcases List.eq_nil_or_concat' p.names with hnil | ⟨names, name, hnames⟩
  · rw [hnil] at hnone
    exact absurd ((h.startOf p).symm.trans hnone) (Option.some_ne_none _)
  · rw [hnames, passable_append] at hpass
    obtain ⟨_, hdirectory, _, _⟩ := hpass
    rw [hnames, follow_append] at hnone ⊢
    by_cases hup : name = ".."
    · -- Going up from a directory leads to one, so something is there.
      have hfollow : follow (follow (t.startOf p) names) [name] =
          (follow (t.startOf p) names).dropLast := if_pos hup
      rw [hfollow] at hnone
      rcases List.eq_nil_or_concat' (follow (t.startOf p) names) with
        hroot | ⟨place, last, hplace⟩
      · rw [hroot] at hnone
        exact absurd hnone (by simp)
      · rw [hplace, List.dropLast_concat] at hnone
        rw [hplace] at hdirectory
        have := h.above place last (entry_there hdirectory)
        exact absurd (this.symm.trans hnone) (Option.some_ne_none _)
    · exact ⟨_, name, follow_name hup _, hdirectory⟩

/-- An entry that is put where a path leads lies in a directory. -/
theorem Grounded.put (h : t.Grounded) (hq : t.resolve p = .ok q)
    (hkeeps : t.Keeps (t.put q e)) (hne : q ≠ []) : (t.put q e).Grounded := by
  refine ⟨hkeeps.directory _ h.current, fun place name hentry => ?_⟩
  refine hkeeps.directory _ ?_
  rw [entry?_put hne] at hentry
  split at hentry
  · next heq =>
      cases hold : t.entry? q with
      | none =>
          obtain ⟨place', name', hplace, hdirectory⟩ := h.above_of_resolve hq hold
          obtain ⟨rfl, _⟩ := List.append_inj' (heq.trans hplace) rfl
          exact hdirectory
      | some old =>
          rw [← heq] at hold
          exact h.above place name (entry_there hold)
  · exact h.above place name hentry

/-! ## Trees that grow -/

/-- What is in a tree is in another, where files may have other contents. -/
structure Grows (t t' : FileTree) : Prop extends t.Keeps t' where
  file : ∀ q c, t.entry? q = some (.file c) →
    ∃ c', t'.entry? q = some (.file c')
  grounded : t.Grounded → t'.Grounded

theorem Grows.refl (t : FileTree) : t.Grows t :=
  ⟨.refl t, fun _ c h => ⟨c, h⟩, id⟩

theorem Grows.trans {t'' : FileTree} (h : t.Grows t') (h' : t'.Grows t'') :
    t.Grows t'' := by
  refine ⟨h.toKeeps.trans h'.toKeeps, fun q c hq => ?_, h'.grounded ∘ h.grounded⟩
  obtain ⟨c', hc'⟩ := h.file q c hq
  exact h'.file q c' hc'

/-- A file takes the place of a file, or of nothing. -/
theorem grows_put_file (hq : t.resolve p = .ok q)
    (h : t.entry? q ≠ some .directory) (content : ByteArray) :
    t.Grows (t.put q (.file content)) := by
  have hne := ne_nil_of_entry h
  have hkeeps : t.Keeps (t.put q (.file content)) := by
    refine ⟨rfl, fun r hr => ?_⟩
    rw [entry?_put hne, if_neg (by rintro rfl; exact h hr), hr]
  refine ⟨hkeeps, fun r c hr => ?_, fun hground => hground.put hq hkeeps hne⟩
  rw [entry?_put hne]
  split
  · exact ⟨content, rfl⟩
  · exact ⟨c, hr⟩

theorem grows_put_directory (hq : t.resolve p = .ok q)
    (h : t.entry? q = none) : t.Grows (t.put q .directory) := by
  have hne : q ≠ [] := ne_nil_of_entry (by rw [h]; exact nofun)
  have hkeeps : t.Keeps (t.put q .directory) := by
    refine ⟨rfl, fun r hr => ?_⟩
    rw [entry?_put hne, hr, ite_self]
  refine ⟨hkeeps, fun r c hr => ⟨c, ?_⟩,
    fun hground => hground.put hq hkeeps hne⟩
  rw [entry?_put hne, if_neg (by rintro rfl; rw [h] at hr; exact nomatch hr), hr]

theorem write_grows (h : t.write p content = .ok t') : t.Grows t' := by
  obtain ⟨q, hq, hentry, rfl⟩ := write_eq_ok_iff.1 h
  exact grows_put_file hq hentry content

theorem append_grows (h : t.append p content = .ok t') : t.Grows t' := by
  obtain ⟨q, old, hq, hold, rfl⟩ := append_eq_ok h
  exact grows_put_file hq (contentAt_ne_directory hold) (old ++ content)

theorem makeDirectory_grows (h : t.makeDirectory p = .ok t') : t.Grows t' := by
  obtain ⟨q, hq, hentry, rfl⟩ := makeDirectory_eq_ok_iff.1 h
  exact grows_put_directory hq hentry

theorem unlessThere_eq_ok {made : Except FileError FileTree}
    (h : t.unlessThere p made = .ok t') : made = .ok t' ∨ t' = t := by
  cases made with
  | ok t'' => exact .inl h
  | error why =>
      rw [unlessThere] at h
      cases hthere : t.isDirectory p with
      | error why' => rw [hthere] at h; cases h
      | ok there =>
          rw [hthere] at h
          cases there with
          | true => exact .inr (Except.ok.inj h).symm
          | false => cases h

theorem unlessThere_grows {made : Except FileError FileTree}
    (hmade : ∀ t', made = .ok t' → t.Grows t')
    (h : t.unlessThere p made = .ok t') : t.Grows t' := by
  rcases unlessThere_eq_ok h with h | rfl
  · exact hmade t' h
  · exact .refl t'

theorem makeAll_grows {start : FilePath.Start} {names : List String}
    (h : t.makeAll start names = .ok t') : t.Grows t' := by
  induction names generalizing t t' with
  | nil => exact unlessThere_grows (fun _ => makeDirectory_grows) h
  | cons name above ih =>
      rw [makeAll] at h
      split at h
      · cases habove : t.makeAll start above with
        | error why => rw [habove] at h; cases h
        | ok t'' =>
            rw [habove] at h
            exact (ih habove).trans
              (unlessThere_grows (fun _ => makeDirectory_grows) h)
      · exact unlessThere_grows (fun _ => makeDirectory_grows) h

theorem makeDirectories_grows (h : t.makeDirectories p = .ok t') : t.Grows t' :=
  makeAll_grows h

/-- What an operation that may fail leaves behind has grown if it does so where
it succeeds. -/
theorem grows_getD {made : Except FileError FileTree}
    (hmade : ∀ t', made = .ok t' → t.Grows t') :
    t.Grows (made.toOption.getD t) := by
  cases made with
  | error why => exact .refl t
  | ok t' => exact hmade t' rfl

/-! ## Removing and moving files -/

theorem unlink_eq_ok_iff : t.unlink p = .ok t' ↔
    ∃ q c, t.resolve p = .ok q ∧ t.entry? q = some (.file c) ∧
      t' = t.without (· == q) := by
  rw [unlink]
  cases hresolve : t.resolve p with
  | error why => exact ⟨nofun, fun ⟨_, _, h, _⟩ => nomatch h⟩
  | ok q =>
      rw [ok_bind]
      cases hentry : t.entry? q with
      | none => simp [hentry]
      | some e =>
          cases e with
          | directory => simp [hentry]
          | file c => simp [hentry, pure, Except.pure, eq_comm]

/-- The tree with an entry moved, and all that lies below it. -/
def moving (t : FileTree) (source target : Place) : FileTree :=
  { t.without (· == target) with
    entries := (t.without (· == target)).entries.map fun (q, x) =>
      (moved source target q, x) }

theorem rename_eq_ok (h : t.rename p p' = .ok t') :
    ∃ source target e, t.resolve p = .ok source ∧ t.resolve p' = .ok target ∧
      t.entry? source = some e ∧
      (source = target ∧ t' = t ∨ source ≠ target ∧
        t.replaceable e target = .ok () ∧ t' = t.moving source target) := by
  rw [rename] at h
  cases hsource : t.resolve p with
  | error why => rw [hsource] at h; cases h
  | ok source =>
      cases htarget : t.resolve p' with
      | error why => rw [hsource, htarget] at h; cases h
      | ok target =>
          rw [hsource, htarget, ok_bind, ok_bind] at h
          cases hentry : t.entry? source with
          | none => rw [hentry] at h; cases h
          | some e =>
              simp only [hentry] at h
              refine ⟨source, target, e, rfl, rfl, hentry, ?_⟩
              by_cases hsame : source = target
              · rw [if_pos hsame] at h
                exact .inl ⟨hsame, (Except.ok.inj h).symm⟩
              · rw [if_neg hsame] at h
                by_cases hwithin : isWithin source target = true
                · rw [if_pos hwithin] at h; cases h
                · rw [if_neg hwithin] at h
                  refine .inr ⟨hsame, ?_⟩
                  cases hplace : t.replaceable e target with
                  | error why => rw [hplace] at h; cases h
                  | ok _ =>
                      rw [hplace] at h
                      exact ⟨rfl, (Except.ok.inj h).symm⟩

/-! ## Trees with the same directories -/

/-- Paths lead to the same places in two trees with the same directories. -/
structure Alike (t t' : FileTree) : Prop where
  there : t.Keeps t'
  back : t'.Keeps t

theorem Alike.refl (t : FileTree) : t.Alike t := ⟨.refl t, .refl t⟩

theorem Alike.trans {t'' : FileTree} (h : t.Alike t') (h' : t'.Alike t'') :
    t.Alike t'' :=
  ⟨h.there.trans h'.there, h'.back.trans h.back⟩

theorem Alike.resolve_iff (h : t.Alike t') :
    t'.resolve p = .ok q ↔ t.resolve p = .ok q :=
  ⟨h.back.resolve, h.there.resolve⟩

theorem Alike.directory_iff (h : t.Alike t') :
    t'.entry? q = some .directory ↔ t.entry? q = some .directory :=
  ⟨h.back.directory q, h.there.directory q⟩

theorem alike_put_file (h : t.entry? q ≠ some .directory)
    (content : ByteArray) :
    t.Alike (t.put q (.file content)) := by
  have hne := ne_nil_of_entry h
  refine ⟨⟨rfl, fun r hr => ?_⟩, ⟨rfl, fun r hr => ?_⟩⟩
  · rw [entry?_put hne, if_neg (by rintro rfl; exact h hr), hr]
  · rw [entry?_put hne] at hr
    split at hr
    · cases hr
    · exact hr

theorem alike_without (h : t.entry? q ≠ some .directory) :
    t.Alike (t.without (· == q)) := by
  have hne := ne_nil_of_entry h
  refine ⟨⟨rfl, fun r hr => ?_⟩, ⟨rfl, fun r hr => ?_⟩⟩
  · rw [entry?_without_self hne, if_neg (by rintro rfl; exact h hr), hr]
  · rw [entry?_without_self hne] at hr
    split at hr
    · cases hr
    · exact hr

/-- A tree stays grounded when files are taken away. -/
theorem Alike.grounded (h : t.Alike t') (hground : t.Grounded)
    (hless : ∀ q, t'.entry? q ≠ none → t.entry? q ≠ none) : t'.Grounded := by
  refine ⟨?_, fun q name hentry => ?_⟩
  · rw [h.there.current]
    exact h.there.directory _ hground.current
  · exact h.there.directory _ (hground.above q name (hless _ hentry))

/-! ## Removing files -/

/-- A file that is discarded is gone, if there was one. -/
theorem discard_eq_ok (h : t.discard p = .ok t') :
    t.Alike t' ∧ ∀ r, t'.entry? r =
      if t.resolve p = .ok r then none else t.entry? r := by
  rw [discard] at h
  split at h
  · next hunlink =>
      cases h
      refine ⟨.refl t, fun r => ?_⟩
      split
      · next hr =>
          cases hentry : t.entry? r with
          | none => rfl
          | some e =>
              -- What is there would have been removed, or not be a file.
              rw [unlink, hr, ok_bind, hentry] at hunlink
              cases e <;> cases hunlink
      · rfl
  · obtain ⟨q, c, hq, hentry, rfl⟩ := unlink_eq_ok_iff.1 h
    have hfile := not_directory hentry
    refine ⟨alike_without hfile, fun r => ?_⟩
    rw [entry?_without_self (ne_nil_of_entry hfile), hq]
    simp [eq_comm]

theorem exists_discard (hq : t.resolve p = .ok q)
    (h : t.entry? q ≠ some .directory) : ∃ t', t.discard p = .ok t' := by
  rw [discard, unlink, hq, ok_bind]
  cases hentry : t.entry? q with
  | none => exact ⟨t, rfl⟩
  | some e =>
      cases e with
      | directory => exact absurd hentry h
      | file c => exact ⟨_, rfl⟩

/-- The tree without the files that several paths lead to. -/
def discardAll (t : FileTree) (ps : List FilePath) : Except FileError FileTree :=
  ps.foldlM discard t

theorem discardAll_cons (t : FileTree) (p : FilePath) (ps : List FilePath) :
    t.discardAll (p :: ps) = t.discard p >>= fun t => t.discardAll ps :=
  List.foldlM_cons

theorem discardAll_eq_ok {ps : List FilePath} (h : t.discardAll ps = .ok t') :
    t.Alike t' ∧ ∀ r, t'.entry? r =
      if ∃ p ∈ ps, t.resolve p = .ok r then none else t.entry? r := by
  induction ps generalizing t with
  | nil =>
      cases h
      exact ⟨.refl _, fun r => by simp⟩
  | cons p ps ih =>
      rw [discardAll_cons] at h
      cases hp : t.discard p with
      | error why => rw [hp] at h; cases h
      | ok t'' =>
          rw [hp] at h
          obtain ⟨halike, hentry⟩ := discard_eq_ok hp
          obtain ⟨halike', hentry'⟩ := ih h
          refine ⟨halike.trans halike', fun r => ?_⟩
          rw [hentry', hentry]
          simp only [halike.resolve_iff, List.mem_cons, exists_eq_or_imp]
          by_cases hr : t.resolve p = .ok r <;> simp [hr]

theorem exists_discardAll {ps : List FilePath}
    (h : ∀ p ∈ ps, ∃ q, t.resolve p = .ok q ∧ t.entry? q ≠ some .directory) :
    ∃ t', t.discardAll ps = .ok t' := by
  induction ps generalizing t with
  | nil => exact ⟨_, rfl⟩
  | cons p ps ih =>
      obtain ⟨q, hq, hfile⟩ := h p List.mem_cons_self
      obtain ⟨t'', hp⟩ := exists_discard hq hfile
      have halike := (discard_eq_ok hp).1
      rw [discardAll_cons, hp]
      refine ih fun p' hp' => ?_
      obtain ⟨q', hq', hfile'⟩ := h p' (List.mem_cons_of_mem _ hp')
      exact ⟨q', halike.there.resolve hq',
        fun hdirectory => hfile' (halike.directory_iff.1 hdirectory)⟩

/-! ## Moving a file -/

theorem moved_self (source target : Place) :
    moved source target source = target := by
  simp [moved, isWithin]

theorem moved_of_not_within {source : Place} (h : isWithin source q = false)
    (target : Place) : moved source target q = q := by
  rw [moved, h]
  rfl

theorem find?_moved {source target : Place} (r : Place)
    {entries : List (Place × Entry)}
    (h : ∀ x ∈ entries, x.1 ≠ target ∧
      (x.1 = source ∨ isWithin source x.1 = false)) :
    ((entries.map fun (q, x) => (moved source target q, x)).find?
        (·.1 == r)).map (·.2) =
      if r = target then (entries.find? (·.1 == source)).map (·.2)
      else if r = source then none
      else (entries.find? (·.1 == r)).map (·.2) := by
  induction entries with
  | nil => simp
  | cons x xs ih =>
      obtain ⟨q, e⟩ := x
      obtain ⟨hne, hq⟩ := h _ List.mem_cons_self
      have ih := ih fun x hx => h x (List.mem_cons_of_mem _ hx)
      simp only [List.map_cons, List.find?_cons]
      by_cases hsource : q = source
      · subst hsource
        rw [moved_self]
        by_cases hr : r = target
        · simp [hr]
        · have hr' : (target == r) = false := by simpa using Ne.symm hr
          rw [hr', ih, if_neg hr, if_neg hr]
          by_cases hq : r = q
          · simp [hq]
          · have : (q == r) = false := by simpa using Ne.symm hq
            simp [hq, this]
      · have hwithin := hq.resolve_left hsource
        rw [moved_of_not_within hwithin]
        have hsource' : (q == source) = false := by simpa using hsource
        by_cases hr : q = r
        · subst hr
          simp [hne, hsource]
        · have hr' : (q == r) = false := by simpa using hr
          rw [hr', hsource', ih]

theorem entry?_moving (hground : t.Grounded) {source target : Place}
    {content : ByteArray} (hsource : t.entry? source = some (.file content))
    (htarget : t.entry? target ≠ some .directory) (hne : source ≠ target)
    (r : Place) : entry? (t.moving source target) r =
      if r = target then some (.file content)
      else if r = source then none else t.entry? r := by
  have hnil := ne_nil_of_entry htarget
  have hnil' : source ≠ [] := ne_nil_of_entry (not_directory hsource)
  by_cases hr : r = []
  · subst hr
    rw [entry?_nil, if_neg hnil.symm, if_neg hnil'.symm, entry?_nil]
  · have hentries : ∀ x ∈ (t.without (· == target)).entries, x.1 ≠ target ∧
        (x.1 = source ∨ isWithin source x.1 = false) := by
      rintro ⟨q, e⟩ hx
      obtain ⟨hmem, hq⟩ := List.mem_filter.1 hx
      refine ⟨by simpa using hq, ?_⟩
      by_contra hbelow
      rw [not_or, Bool.not_eq_false, isWithin, List.isPrefixOf_iff_prefix] at hbelow
      obtain ⟨hother, below, rfl⟩ := hbelow
      have := hground.above_append (by rintro rfl; simp at hother)
        (entry?_ne_none_of_mem hmem)
      rw [hsource] at this
      exact nomatch this
    rw [entry?_of_ne_nil hr, moving, find?_moved r hentries]
    have hold : ∀ q, q ≠ [] → ((t.without (· == target)).entries.find?
        (·.1 == q)).map (·.2) = if q = target then none else t.entry? q :=
      fun q hq => by rw [← entry?_without_self hnil, entry?_of_ne_nil hq]
    rw [hold source hnil', hold r hr, if_neg hne, hsource]
    by_cases h : r = target <;> simp [h]

/-- Where a file is moved to, and what else there is. -/
theorem rename_file (hground : t.Grounded) (h : t.rename p p' = .ok t')
    (hfile : t.look p = .ok (.file content)) :
    ∃ source target, t.resolve p = .ok source ∧ t.resolve p' = .ok target ∧
      t.Alike t' ∧ t.entry? target ≠ some .directory ∧
      ∀ r, t'.entry? r = if r = target then some (.file content)
        else if r = source then none else t.entry? r := by
  obtain ⟨source, target, e, hsource, htarget, hentry, hcases⟩ := rename_eq_ok h
  obtain ⟨_, hq, hcontent⟩ := look_eq_ok_iff.1 hfile
  cases hsource.symm.trans hq
  refine ⟨source, target, hsource, htarget, ?_⟩
  rcases hcases with ⟨rfl, rfl⟩ | ⟨hne, hplace, rfl⟩
  · refine ⟨.refl _, not_directory hcontent, fun r => ?_⟩
    by_cases hr : r = source <;> simp [hr, hcontent]
  · have hother : t.entry? target ≠ some .directory := by
      intro hdirectory
      cases hcontent.symm.trans hentry
      unfold replaceable at hplace
      rw [hdirectory] at hplace
      cases hplace
    have hmoving := entry?_moving hground hcontent hother hne
    refine ⟨⟨⟨rfl, fun r hr => ?_⟩, ⟨rfl, fun r hr => ?_⟩⟩, hother, hmoving⟩
    · rw [hmoving, if_neg (by rintro rfl; exact hother hr), if_neg, hr]
      rintro rfl
      rw [hcontent] at hr
      cases hr
    · rw [hmoving] at hr
      split at hr
      · cases hr
      · split at hr
        · cases hr
        · exact hr

/-- A file can be moved to a place where nothing is. -/
theorem exists_rename (hground : t.Grounded) {target : Place}
    (hfile : t.look p = .ok (.file content))
    (htarget : t.resolve p' = .ok target) (hnone : t.entry? target = none) :
    ∃ t', t.rename p p' = .ok t' := by
  obtain ⟨source, hsource, hentry⟩ := look_eq_ok_iff.1 hfile
  have houtside : isWithin source target = false := by
    rw [Bool.eq_false_iff]
    intro hwithin
    obtain ⟨below, rfl⟩ := List.isPrefixOf_iff_prefix.1 hwithin
    obtain ⟨place, name, hplace, hdirectory⟩ :=
      hground.above_of_resolve htarget hnone
    rcases List.eq_nil_or_concat' below with rfl | ⟨init, last, rfl⟩
    · rw [List.append_nil] at hnone
      exact nomatch hentry.symm.trans hnone
    · rw [← List.append_assoc] at hplace
      obtain ⟨rfl, _⟩ := List.append_inj' hplace rfl
      by_cases hinit : init = []
      · rw [hinit, List.append_nil, hentry] at hdirectory
        cases hdirectory
      · have := hground.above_append hinit (entry_there hdirectory)
        rw [hentry] at this
        exact nomatch this
  have hne : source ≠ target := by
    rintro rfl
    exact nomatch hentry.symm.trans hnone
  refine ⟨t.moving source target, ?_⟩
  have hplace : t.replaceable (.file content) target = .ok () := by
    unfold replaceable
    rw [hnone]
  rw [rename, hsource, htarget, ok_bind, ok_bind, hentry]
  dsimp only
  rw [if_neg hne, houtside, if_neg Bool.false_ne_true, hplace]
  rfl

end FileTree

end Cutlist
