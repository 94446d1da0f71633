import Cutlist.Proofs.Finalizing
import Cutlist.Proofs.Results

/-!
# What a failure costs

The old screen recording is removed before the merged file is moved into its
place. Whether there is a merged file is not asked before that: an encoder that
says that all went well is believed. So when it has written nothing, the move
fails with the screen recording gone, and any segment that was the screen
recording with it.

What the encoder has written is cleared away only when the encoder itself
fails. It is left behind when the run breaks off over a number that is out of
range, and when the screen recording cannot be replaced. In every other failure
nothing is lost and nothing is left; the segments apart from the screen
recording, and the absence of the manifest, are safe in all of them.
-/

namespace Cutlist

open Session Cutlist.Action FileTree

namespace Recording

/-- The segments and the screen recording, as far as there are files for them,
are as they were. -/
def KeepsFootage (before after : FileTree) (segments : List FilePath)
    (screen : FilePath) : Prop :=
  ∀ p ∈ screen :: segments, ∀ c, before.look p = .ok (.file c) →
    after.look p = .ok (.file c)

/-- The footage is as it was, and nothing else is left. -/
structure NothingLost (before after : FileTree) (segments : List FilePath)
    (screen : FilePath) : Prop where
  footage : KeepsFootage before after segments screen
  manifest : after.Gone (manifestPath screen)
  merged : after.Gone (mergedPath screen)

/-- There are files for the segments, and none at the places that are used on
the way. -/
structure Ready (t : FileTree) (segments : List FilePath) (screen : FilePath) :
    Prop where
  grounded : t.Grounded
  segment : ∀ p ∈ segments, ∃ c, t.look p = .ok (.file c)
  manifest : t.Gone (manifestPath screen)
  merged : t.Gone (mergedPath screen)

/-- The encoder leaves the footage alone and makes no directory of the merged
file; beyond that it does what it likes. -/
structure Spares (host : Host) (s : Session) (segments : List FilePath)
    (screen : FilePath) : Prop where
  footage : ∀ result after, Joined host s segments screen result after →
    KeepsFootage s.files after.files segments screen
  merged : ∀ result after, Joined host s segments screen result after →
    after.files.look (mergedPath screen) ≠ .ok .directory

/-- What the encoder has done can be undone: it fails itself, or there is
nothing to clear away. After a success there has to be nothing to replace
either, unless the merged file is all that would be replaced. -/
def Harmless (s after : Session) (screen : FilePath) :
    Except Failure String → Prop
  | .error failure => failure.ofEncoder?.isSome = true ∨
      after.files.Gone (mergedPath screen)
  | .ok _ => screen = mergedPath screen ∨
      after.files.Gone (mergedPath screen) ∧
        ∀ c, s.files.look screen ≠ .ok (.file c)

/-- What a failure costs when the encoder was done with `result` and the tree
`t` is left in the end. -/
structure Costs (s after : Session) (segments : List FilePath)
    (screen : FilePath) (result : Except Failure String) (t : FileTree) :
    Prop where
  segment : ∀ p ∈ segments, s.files.target p ≠ s.files.target screen →
    ∀ c, s.files.look p = .ok (.file c) → t.look p = .ok (.file c)
  manifest : t.Gone (manifestPath screen)
  nothing : NothingLost s.files t segments screen ↔
    Harmless s after screen result

section Failures

variable {host : Host} {s s' after : Session} {segments : List FilePath}
variable {screen : FilePath} {result : Except Failure String}
variable {failure : Failure} {t : FileTree} {p : FilePath} {q : Place}

/-- Footage stands at neither of the places that are used on the way. -/
theorem Ready.elsewhere (hready : Ready s.files segments screen)
    (h : Joined host s segments screen result after) {c : ByteArray}
    (hq : s.files.entry? q = some (.file c)) :
    q ≠ home s screen ++ [manifestName] ∧ q ≠ home s screen ++ [mergedName] := by
  have hmanifest := (gone_iff h.manifest).1 hready.manifest
  have hmerged := (gone_iff h.merged).1 hready.merged
  constructor
  · rintro rfl
    rw [hmanifest] at hq
    cases hq
  · rintro rfl
    rw [hmerged] at hq
    cases hq

/-- Footage that the encoder has spared is kept where its places are. -/
theorem KeepsFootage.of_alike (h : Joined host s segments screen result after)
    (hspared : KeepsFootage s.files after.files segments screen)
    (halike : after.files.Alike t)
    (hsame : ∀ p ∈ screen :: segments, ∀ q c, s.files.resolve p = .ok q →
      s.files.entry? q = some (.file c) → t.entry? q = after.files.entry? q) :
    KeepsFootage s.files t segments screen := by
  intro p hp c hlook
  obtain ⟨q, hq, hentry⟩ := look_eq_ok_iff.1 hlook
  refine halike.look (hspared p hp c hlook) fun q' hq' => ?_
  cases (h.grows.resolve hq).symm.trans hq'
  exact hsame p hp q c hq hentry

/-- When the footage is kept, the merged file is all that may be left. -/
theorem Costs.of_kept (hkeeps : KeepsFootage s.files t segments screen)
    (hgone : t.Gone (manifestPath screen))
    (hmerged : t.Gone (mergedPath screen) ↔ Harmless s after screen result) :
    Costs s after segments screen result t where
  segment p hp _ := hkeeps p (List.mem_cons_of_mem _ hp)
  manifest := hgone
  nothing := ⟨fun hlost => hmerged.1 hlost.merged,
    fun hharmless => ⟨hkeeps, hgone, hmerged.2 hharmless⟩⟩

/-! ## A failure of the encoder -/

theorem cleared_costs (hready : Ready s.files segments screen)
    (h : Joined host s segments screen (.error failure) after)
    (hspared : KeepsFootage s.files after.files segments screen)
    (ht : after.files.discardAll (cleared screen failure) = .ok t) :
    Costs s after segments screen (.error failure) t := by
  obtain ⟨halike, hentry⟩ := discardAll_eq_ok ht
  have hmanifest := halike.there.resolve h.manifest_after
  have hmerged := halike.there.resolve h.merged_after
  have hcleared : ∀ r, (∃ p ∈ cleared screen failure,
      after.files.resolve p = .ok r) ↔
      r = home s screen ++ [manifestName] ∨
        failure.ofEncoder?.isSome = true ∧ r = home s screen ++ [mergedName] := by
    intro r
    rw [cleared]
    split
    · next hencoder =>
        simp [h.manifest_after, h.merged_after, hencoder, or_comm, eq_comm]
    · next hother => simp [h.manifest_after, hother, eq_comm]
  refine .of_kept (hspared.of_alike h halike fun p _ q c _ hq => ?_) ?_ ?_
  · obtain ⟨hne, hne'⟩ := hready.elsewhere h hq
    rw [hentry, if_neg]
    rw [hcleared]
    exact fun hr => hr.elim hne fun hr => hne' hr.2
  · rw [gone_iff hmanifest, hentry, if_pos ((hcleared _).2 (.inl rfl))]
  · rw [gone_iff hmerged, hentry, Harmless, gone_iff h.merged_after]
    simp only [hcleared, (names_differ _).symm, false_or, and_true]
    by_cases hencoder : failure.ofEncoder?.isSome = true <;> simp [hencoder]

/-! ## A failure after the encoder -/

/-- The screen recording could not be replaced, and was not touched. -/
theorem untouched_costs {told : String}
    (hready : Ready s.files segments screen)
    (h : Joined host s segments screen (.ok told) after)
    (hspared : KeepsFootage s.files after.files segments screen)
    (hfile : after.files.look (mergedPath screen) ≠ .ok .directory)
    (ht : after.files.discard (manifestPath screen) = .ok t)
    (hnone : ∀ c, t.look screen ≠ .ok (.file c)) :
    Costs s after segments screen (.ok told) t := by
  have halike := (discard_eq_ok ht).1
  have hsettled := entry?_settled h ht
  have hmerged := halike.there.resolve h.merged_after
  have hkeeps : KeepsFootage s.files t segments screen :=
    hspared.of_alike h halike fun p _ q c _ hq => by
      rw [hsettled, if_neg (hready.elsewhere h hq).1]
  have hiff : t.Gone (mergedPath screen) ↔
      after.files.Gone (mergedPath screen) := by
    rw [gone_iff hmerged, gone_iff h.merged_after, hsettled,
      if_neg (names_differ _).symm]
  refine .of_kept hkeeps ?_ ?_
  · rw [gone_iff (halike.there.resolve h.manifest_after), hsettled, if_pos rfl]
  · rw [hiff, Harmless]
    refine ⟨fun hgone => .inr ⟨hgone, fun c hc =>
      hnone c (hkeeps screen List.mem_cons_self c hc)⟩, ?_⟩
    rintro (hsame | ⟨hgone, _⟩)
    · -- Only a file could be there, and it would be the screen recording.
      intro e he
      cases e with
      | directory => exact hfile he
      | file c =>
          have hc : t.look (mergedPath screen) = .ok (.file c) := by
            refine halike.look he fun q hq => ?_
            cases h.merged_after.symm.trans hq
            rw [hsettled, if_neg (names_differ _).symm]
          rw [← hsame] at hc
          exact hnone c hc
    · exact hgone

namespace Bared

variable {v : FileTree}

theorem gone_manifest (hb : Bared s after screen q v)
    (h : Joined host s segments screen result after) :
    v.Gone (manifestPath screen) := by
  rw [gone_iff (hb.alike.there.resolve h.manifest_after), hb.entry,
    if_pos (.inr rfl)]

theorem segment (hb : Bared s after screen q v)
    (hready : Ready s.files segments screen)
    (h : Joined host s segments screen result after)
    (hspared : KeepsFootage s.files after.files segments screen)
    (hp : p ∈ segments) (hne : s.files.target p ≠ s.files.target screen)
    {c : ByteArray} (hlook : s.files.look p = .ok (.file c)) :
    v.look p = .ok (.file c) := by
  obtain ⟨r, hr, hentry⟩ := look_eq_ok_iff.1 hlook
  refine hb.alike.look (hspared p (List.mem_cons_of_mem _ hp) c hlook) ?_
  intro r' hr'
  cases (h.grows.resolve hr).symm.trans hr'
  refine hb.same ?_ (hready.elsewhere h hentry).1
  rwa [target_of_resolve hr, target_of_resolve hb.found]

/-- The footage is kept just when there was no screen recording to remove. -/
theorem keepsFootage_iff (hb : Bared s after screen q v)
    (hready : Ready s.files segments screen)
    (h : Joined host s segments screen result after)
    (hspared : KeepsFootage s.files after.files segments screen) :
    KeepsFootage s.files v segments screen ↔
      ∀ c, s.files.look screen ≠ .ok (.file c) := by
  constructor
  · intro hkeeps c hc
    obtain ⟨r, hr, hentry⟩ :=
      look_eq_ok_iff.1 (hkeeps screen List.mem_cons_self c hc)
    cases (hb.alike.there.resolve (h.grows.resolve hb.found)).symm.trans hr
    rw [hb.entry, if_pos (.inl rfl)] at hentry
    cases hentry
  · intro hnone
    refine hspared.of_alike h hb.alike fun p _ r c _ hentry => ?_
    refine hb.same ?_ (hready.elsewhere h hentry).1
    rintro rfl
    exact hnone c (look_eq_ok_iff.2 ⟨_, hb.found, hentry⟩)

/-- Had there been a merged file, it would have been moved. -/
theorem gone_merged (hb : Bared s after screen q v)
    (hready : Ready s.files segments screen)
    (h : Joined host s segments screen result after)
    (hfile : after.files.look (mergedPath screen) ≠ .ok .directory)
    (hplace : home s screen ++ [mergedName] ≠ q) {why : FileError}
    (hrename : v.rename (mergedPath screen) screen = .error why) :
    after.files.Gone (mergedPath screen) := by
  have hmerged := h.merged_after
  intro e he
  cases e with
  | directory => exact hfile he
  | file content =>
      have hlook : v.look (mergedPath screen) = .ok (.file content) := by
        refine hb.alike.look he fun r hr => ?_
        cases hmerged.symm.trans hr
        exact hb.same hplace (names_differ _).symm
      obtain ⟨t', ht'⟩ := exists_rename
        (hb.grounded (h.grows.grounded hready.grounded)) hlook
        (hb.alike.there.resolve (h.grows.resolve hb.found))
        (by rw [hb.entry, if_pos (.inl rfl)])
      rw [hrename] at ht'
      cases ht'

end Bared

/-- The old screen recording was removed, and the merged file could not be moved
into its place. -/
theorem removed_costs {told : String} {v : FileTree}
    (hready : Ready s.files segments screen)
    (h : Joined host s segments screen (.ok told) after)
    (hspared : KeepsFootage s.files after.files segments screen)
    (hfile : after.files.look (mergedPath screen) ≠ .ok .directory)
    (hb : Bared s after screen q v) {why : FileError}
    (hrename : v.rename (mergedPath screen) screen = .error why) :
    Costs s after segments screen (.ok told) v := by
  have hkeeps := hb.keepsFootage_iff hready h hspared
  have hgone := hb.gone_manifest h
  have hmerged := hb.alike.there.resolve h.merged_after
  refine ⟨fun p hp hne c => hb.segment hready h hspared hp hne, hgone, ?_⟩
  by_cases hname : screen = mergedPath screen
  · -- The merged file was taken for an old screen recording.
    refine ⟨fun _ => .inl hname, fun _ => ⟨hkeeps.2 fun c hc => ?_, hgone, ?_⟩⟩
    · rw [hname] at hc
      exact hready.merged _ hc
    · have hplace := hb.found
      rw [hname] at hplace
      cases h.merged.symm.trans hplace
      rw [gone_iff hmerged, hb.entry, if_pos (.inl rfl)]
  · have hplace : home s screen ++ [mergedName] ≠ q := by
      intro heq
      refine hname (eq_child_of_target (t := s.files) ?_)
      rw [← target_of_resolve hb.found, ← heq]
      rfl
    have hnothing := hb.gone_merged hready h hfile hplace hrename
    have hleft : v.Gone (mergedPath screen) := by
      rw [gone_iff hmerged, hb.same hplace (names_differ _).symm]
      exact (gone_iff h.merged_after).1 hnothing
    constructor
    · exact fun hlost => .inr ⟨hnothing, hkeeps.1 hlost.footage⟩
    · rintro (hsame | ⟨_, hnone⟩)
      · exact absurd hsame hname
      · exact ⟨hkeeps.2 hnone, hgone, hleft⟩

/-- Once the merged file is in place, the segments can be removed. -/
theorem exists_removed {told : String} {v x : FileTree}
    (hready : Ready s.files segments screen)
    (h : Joined host s segments screen (.ok told) after)
    (hspared : KeepsFootage s.files after.files segments screen)
    (hfile : after.files.look (mergedPath screen) ≠ .ok .directory)
    (ht : after.files.discard (manifestPath screen) = .ok t)
    (hv : v = t ∧ t.Gone screen ∨ t.unlink screen = .ok v)
    (hrename : v.rename (mergedPath screen) screen = .ok x) :
    ∃ y, x.discardAll (segments.filter (· ≠ screen)) = .ok y := by
  obtain ⟨source, place, e, hsource, hplace, hentry, _⟩ := rename_eq_ok hrename
  have hb := bared h ht hv hplace
  cases (hb.alike.there.resolve h.merged_after).symm.trans hsource
  obtain ⟨content, rfl⟩ : ∃ content, e = .file content := by
    cases e with
    | file content => exact ⟨content, rfl⟩
    | directory =>
        exact absurd (look_eq_ok_iff.2
          ⟨_, h.merged_after, hb.alike.directory_iff.1 hentry⟩) hfile
  obtain ⟨_, _, _, _, halike, _⟩ :=
    rename_file (hb.grounded (h.grows.grounded hready.grounded)) hrename
      (look_eq_ok_iff.2 ⟨_, hsource, hentry⟩)
  refine exists_discardAll fun p hp => ?_
  have hmem : p ∈ screen :: segments :=
    List.mem_cons_of_mem _ (List.mem_of_mem_filter hp)
  obtain ⟨c, hlook⟩ := hready.segment p (List.mem_of_mem_filter hp)
  obtain ⟨q, hq, hafter⟩ := look_eq_ok_iff.1 (hspared p hmem c hlook)
  have hboth := hb.alike.trans halike
  refine ⟨q, hboth.there.resolve hq, fun hdirectory => ?_⟩
  rw [hboth.directory_iff, hafter] at hdirectory
  cases hdirectory

/-- When the manifest is gone, only putting the merged file into its place can
fail. -/
theorem finish_ok_costs {told : String} {after' : Session}
    (hready : Ready s.files segments screen)
    (h : Joined host s segments screen (.ok told) after)
    (hspared : KeepsFootage s.files after.files segments screen)
    (hfile : after.files.look (mergedPath screen) ≠ .ok .directory)
    (ht : after.files.discard (manifestPath screen) = .ok after'.files)
    (hfail : (do
      replace (mergedPath screen) screen
      removeSegments segments screen
      pure screen : Action FilePath).outcome host after' =
        (.error failure, s')) :
    Costs s after segments screen (.ok told) s'.files := by
  rcases replace_cases (mergedPath screen) screen host after' with
    ⟨why, hreplace, hnone⟩ | ⟨v, hv, hreplace⟩
  · cases (outcome_bind_error hreplace _).symm.trans hfail
    exact untouched_costs hready h hspared hfile ht hnone
  · cases hrename : v.rename (mergedPath screen) screen with
    | error why =>
        have hstop := hreplace.trans
          (outcome_change_error (s := { after' with files := v }) hrename)
        cases (outcome_bind_error hstop _).symm.trans hfail
        rcases hv with ⟨rfl, hnone⟩ | hunlink
        · exact untouched_costs hready h hspared hfile ht fun c => hnone _
        · obtain ⟨q, hb⟩ := exists_bared h ht hunlink
          exact removed_costs hready h hspared hfile hb hrename
    | ok x =>
        have hmoved := hreplace.trans
          (outcome_change_ok (s := { after' with files := v }) hrename)
        obtain ⟨y, hy⟩ :=
          exists_removed hready h hspared hfile ht hv hrename
        rw [outcome_bind_ok hmoved, removeSegments] at hfail
        rcases outcome_discards (segments.filter (· ≠ screen)) host
          { after' with files := x } with ⟨_, _, hall⟩ | ⟨⟨why, hwhy⟩, _⟩
        · rw [outcome_bind_ok hall] at hfail
          cases hfail
        · exact nomatch hy.symm.trans hwhy

/-- What a failure after the encoder leaves. -/
theorem finish_costs (hready : Ready s.files segments screen)
    (hspares : Spares host s segments screen)
    (h : Joined host s segments screen result after)
    (hfail : (finish segments screen result).outcome host after =
      (.error failure, s')) :
    Costs s after segments screen result s'.files := by
  have hspared := hspares.footage _ _ h
  have hfile := hspares.merged _ _ h
  obtain ⟨c, hmanifest⟩ := h.manifest_file
  rw [finish] at hfail
  cases result with
  | error why =>
      have hclear : ∀ p ∈ [mergedPath screen, manifestPath screen], ∃ q,
          after.files.resolve p = .ok q ∧
            after.files.entry? q ≠ some .directory := by
        simp only [List.forall_mem_cons]
        exact ⟨⟨_, h.merged_after, fun hdirectory => hfile
          (look_eq_ok_iff.2 ⟨_, h.merged_after, hdirectory⟩)⟩,
          ⟨_, h.manifest_after, not_directory hmanifest⟩,
          fun _ hp => nomatch hp⟩
      obtain ⟨s'', hsettle, ht⟩ := settle_error host hclear why
      cases (outcome_bind_error hsettle _).symm.trans hfail
      exact cleared_costs hready h hspared ht
  | ok told =>
      obtain ⟨s'', hsettle, ht⟩ :=
        settle_ok host told h.manifest_after (not_directory hmanifest)
      rw [outcome_bind_ok hsettle] at hfail
      exact finish_ok_costs hready h hspared hfile ht hfail

/-- What a failure costs: the segments apart from the screen recording are as
they were and the manifest is gone, and nothing else is lost or left exactly
when what the encoder has done can be undone. -/
theorem failure_costs (host : Host) (s : Session) (segments : List FilePath)
    (screen : FilePath) (hcount : 2 ≤ segments.length)
    (hready : Ready s.files segments screen)
    (hspares : Spares host s segments screen) {failure : Failure}
    (hfail : ((concatenate segments screen).outcome host s).1 =
      .error failure) :
    (∀ p ∈ segments, s.files.target p ≠ s.files.target screen →
      ∀ c, s.files.look p = .ok (.file c) →
        ((concatenate segments screen).outcome host s).2.files.look p =
          .ok (.file c)) ∧
    ((concatenate segments screen).outcome host s).2.files.Gone
      (manifestPath screen) ∧
    (NothingLost s.files ((concatenate segments screen).outcome host s).2.files
        segments screen ↔
      ∀ result after, Joined host s segments screen result after →
        Harmless s after screen result) := by
  rcases concatenate_outcome hcount host s screen with
    ⟨why, hwrite, hout⟩ | ⟨result, after, h, hout⟩
  · rw [hout]
    refine ⟨fun p _ _ c hc => hc, hready.manifest, fun _ result after h => ?_,
      fun _ => ⟨fun p _ c hc => hc, hready.manifest, hready.merged⟩⟩
    obtain ⟨t, ht, _⟩ := h
    exact nomatch hwrite.symm.trans ht
  · rcases hfinish : (finish segments screen result).outcome host after with
      ⟨r, s'⟩
    rw [hout, hfinish] at hfail ⊢
    cases hfail
    obtain ⟨hsegments, hgone, hiff⟩ := finish_costs hready hspares h hfinish
    refine ⟨hsegments, hgone, hiff.trans ⟨fun hharmless result' after' h' => ?_,
      fun hall => hall result after h⟩⟩
    -- There is only one way in which the encoder is done.
    obtain ⟨t, ht, hencode⟩ := h
    obtain ⟨t', ht', hencode'⟩ := h'
    cases ht.symm.trans ht'
    cases hencode.symm.trans hencode'
    exact hharmless

/-! ## Two takes and an old screen recording -/

def inRec (name : String) : FilePath := ⟨.here, ["rec", name]⟩

/-- A screen recording from before, and two takes that are to replace it. -/
def retaken : FileTree where
  entries := [(["rec"], .directory), (["rec", "a.mp4"], .file "a".toUTF8),
    (["rec", "b.mp4"], .file "b".toUTF8),
    (["rec", "screen.mp4"], .file "old".toUTF8)]

def takes : List FilePath := [inRec "a.mp4", inRec "b.mp4"]

/-- A host whose encoder takes a given course. -/
def hostWith (course : Run.Course) : Host where
  settings := .standard ⟨.root, ["home"]⟩
  now := default
  clock := ""
  newId := ""
  which _ := none
  probe _ _ := .unavailable ""
  course := course

theorem grounded_of_entries
    (hcurrent : t.entry? t.current = some .directory)
    (h : ∀ x ∈ t.entries, t.entry? x.1.dropLast = some .directory) :
    t.Grounded := by
  refine ⟨hcurrent, fun q name hentry => ?_⟩
  obtain ⟨e, he⟩ := Option.ne_none_iff_exists'.1 hentry
  have hmem : (q ++ [name], e) ∈ t.entries :=
    mem_of_entry? (by simp) he
  have := h _ hmem
  rwa [List.dropLast_concat] at this

theorem grounded_retaken : retaken.Grounded :=
  grounded_of_entries (by decide) (by decide)

theorem gone_of_look (why : FileError) (h : t.look p = .error why) :
    t.Gone p := by
  intro e he
  rw [h] at he
  cases he

theorem ready_retaken : Ready retaken takes (inRec "screen.mp4") where
  grounded := grounded_retaken
  segment := by
    have ha : retaken.look (inRec "a.mp4") = .ok (.file "a".toUTF8) := by
      decide +kernel
    have hb : retaken.look (inRec "b.mp4") = .ok (.file "b".toUTF8) := by
      decide +kernel
    simp only [takes, List.forall_mem_cons]
    exact ⟨⟨_, ha⟩, ⟨_, hb⟩, fun _ h => nomatch h⟩
  manifest := gone_of_look .notFound (by decide +kernel)
  merged := gone_of_look .notFound (by decide +kernel)

/-- An encoder spares the footage where what is found there does not change. -/
theorem spares_of_looks
    (h : ∀ t, s.files.write (manifestPath screen)
        (Manifest.text (segments.map FilePath.toText)).toUTF8 = .ok t →
      (∀ p ∈ screen :: segments, ((encode (joining host screen)).outcome host
        { s with files := t }).2.files.look p = s.files.look p) ∧
      ((encode (joining host screen)).outcome host
        { s with files := t }).2.files.look (mergedPath screen) ≠
          .ok .directory) : Spares host s segments screen := by
  constructor
  · rintro result after ⟨t, ht, hencode⟩ p hp c hc
    have := (h t ht).1 p hp
    rw [hencode] at this
    exact this.trans hc
  · rintro result after ⟨t, ht, hencode⟩
    have := (h t ht).2
    rwa [hencode] at this

/-- An encoder that writes half of the merged file and fails. -/
def halfway : Run.Course where
  creates := [(inRec "screen_merged.mp4", "half".toUTF8)]
  exitCode := 1

theorem spares_retaken (course : Run.Course)
    (h : ((retaken.write (manifestPath (inRec "screen.mp4"))
        (Manifest.text (takes.map FilePath.toText)).toUTF8).toOption.all fun t =>
      decide ((∀ p ∈ inRec "screen.mp4" :: takes,
        ((encode (joining (hostWith course) (inRec "screen.mp4"))).outcome
          (hostWith course) { files := t }).2.files.look p = retaken.look p) ∧
        ((encode (joining (hostWith course) (inRec "screen.mp4"))).outcome
          (hostWith course) { files := t }).2.files.look
            (mergedPath (inRec "screen.mp4")) ≠ .ok .directory)) = true) :
    Spares (hostWith course) { files := retaken } takes (inRec "screen.mp4") := by
  refine spares_of_looks fun t ht => ?_
  have ht' : retaken.write (manifestPath (inRec "screen.mp4"))
      (Manifest.text (takes.map FilePath.toText)).toUTF8 = .ok t := ht
  rw [ht'] at h
  exact of_decide_eq_true h

/-- A failure of the encoder costs nothing, whatever it has written. -/
theorem failure_costs_halfway :
    Ready retaken takes (inRec "screen.mp4") ∧
    Spares (hostWith halfway) { files := retaken } takes (inRec "screen.mp4") ∧
    (∃ failure, ((concatenate takes (inRec "screen.mp4")).outcome
      (hostWith halfway) { files := retaken }).1 = .error failure) ∧
    NothingLost retaken ((concatenate takes (inRec "screen.mp4")).outcome
      (hostWith halfway) { files := retaken }).2.files takes
        (inRec "screen.mp4") := by
  have hspares := spares_retaken halfway (by decide +kernel)
  obtain ⟨failure, hfail⟩ := exists_error (x := ((concatenate takes
    (inRec "screen.mp4")).outcome (hostWith halfway) { files := retaken }).1)
    (by decide +kernel)
  refine ⟨ready_retaken, hspares, ⟨failure, hfail⟩, ?_⟩
  refine (failure_costs (hostWith halfway) { files := retaken } takes
    (inRec "screen.mp4") (by decide) ready_retaken hspares hfail).2.2.2 ?_
  rintro result after ⟨t, _, hencode⟩
  obtain ⟨s', hencode', _⟩ := outcome_encode (hostWith halfway)
    { files := t } (joining (hostWith halfway) (inRec "screen.mp4"))
  cases hencode.symm.trans hencode'
  exact .inl rfl

/-- When the encoder says that all went well and has written nothing, the old
screen recording is lost. -/
theorem screen_recording_lost :
    Ready retaken takes (inRec "screen.mp4") ∧
    Spares (hostWith {}) { files := retaken } takes (inRec "screen.mp4") ∧
    (∃ failure, ((concatenate takes (inRec "screen.mp4")).outcome
      (hostWith {}) { files := retaken }).1 = .error failure) ∧
    ¬ NothingLost retaken ((concatenate takes (inRec "screen.mp4")).outcome
      (hostWith {}) { files := retaken }).2.files takes (inRec "screen.mp4") := by
  refine ⟨ready_retaken, spares_retaken {} (by decide +kernel),
    exists_error (by decide +kernel), fun hlost => ?_⟩
  have hbefore : retaken.look (inRec "screen.mp4") =
      .ok (.file "old".toUTF8) := by decide +kernel
  have hafter : ((concatenate takes (inRec "screen.mp4")).outcome (hostWith {})
      { files := retaken }).2.files.look (inRec "screen.mp4") =
        .error .notFound := by decide +kernel
  have := hlost.footage _ List.mem_cons_self _ hbefore
  rw [hafter] at this
  exact nomatch this

end Failures

end Recording

end Cutlist
