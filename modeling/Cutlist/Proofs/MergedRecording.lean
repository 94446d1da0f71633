import Cutlist.Proofs.LostFootage

/-!
# What a success brings

When everything goes well the merged file stands in the place of the screen
recording, and the segments are removed, all but the screen recording where it
is one of them. That it is one of them is seen from its path alone. A segment
that leads to the screen recording by another path, one with a double dot or
one from the root, is removed after the merged file has come into its place:
then the merged file is gone, and with it the last copy of what was recorded.
-/

namespace Cutlist

open Session Cutlist.Action FileTree

namespace FileTree

variable {t t' : FileTree} {p : FilePath} {q : Place}

/-- A directory that is there need not be made. -/
theorem makeDirectories_of_look (h : t.look p = .ok .directory) :
    t.makeDirectories p = .ok t := by
  obtain ⟨q, hq, hentry⟩ := look_eq_ok_iff.1 h
  have hthere : t.isDirectory p = .ok true := by
    rw [isDirectory, look?, h]
    rfl
  have hmake : t.makeDirectory p = .error .exists := by
    rw [makeDirectory, hq, ok_bind, hentry]
    rfl
  have hunless : t.unlessThere p (.error .exists) = .ok t := by
    rw [unlessThere, hthere]
    rfl
  obtain ⟨start, names⟩ := p
  rw [makeDirectories]
  cases hnames : names.reverse with
  | nil =>
      rw [List.reverse_eq_nil_iff] at hnames
      subst hnames
      rw [makeAll, hmake, hunless]
  | cons name above =>
      rw [List.reverse_eq_cons_iff] at hnames
      have hpath : (⟨start, (name :: above).reverse⟩ : FilePath) =
          ⟨start, names⟩ := by rw [List.reverse_cons, hnames]
      rw [makeAll, hpath, hmake]
      exact hunless

/-- The path above one that leads into a directory leads to that directory. -/
theorem look_of_resolve_child {name : String} (hname : name ≠ "..")
    (h : t.resolve (p.child name) = .ok q) : t.look p = .ok .directory := by
  obtain ⟨hspell, hpass, hdirectory, _⟩ := (resolve_child_iff hname).1 h
  refine look_eq_ok_iff.2 ⟨_, resolve_eq_ok_iff.2 ⟨⟨?_, ?_⟩, hpass, rfl⟩,
    hdirectory⟩
  · have hnone := hspell.noNull
    rw [FilePath.child, List.any_append, Bool.or_eq_false_iff] at hnone
    exact hnone.1
  · have hlong := hspell.short
    by_cases hnames : p.names = []
    · rw [FilePath.toText, hnames]
      cases p.start <;> decide
    · rw [FilePath.toText_child hnames, String.utf8ByteSize_append,
        String.utf8ByteSize_append] at hlong
      omega

end FileTree

namespace Session

/-- A file that is created in a directory that is there is the only change. -/
theorem created_child {t : FileTree} {p : FilePath} {name : String} {q : Place}
    (hname : name ≠ "..") (hq : t.resolve (p.child name) = .ok q)
    (hfile : t.entry? q ≠ some .directory) (content : ByteArray) :
    created t (p.child name) content = t.put q (.file content) := by
  have hwrite : t.write (p.child name) content = .ok (t.put q (.file content)) :=
    write_eq_ok_iff.2 ⟨q, hq, hfile, rfl⟩
  rw [created, FilePath.parent_child,
    makeDirectories_of_look (look_of_resolve_child hname hq)]
  change (t.write (p.child name) content).toOption.getD t = _
  rw [hwrite]
  rfl

/-- What is left of several contents of one file is the last of them. -/
theorem created_all {t : FileTree} {p : FilePath} {name : String} {q : Place}
    (hname : name ≠ "..") (hq : t.resolve (p.child name) = .ok q)
    (hfile : t.entry? q ≠ some .directory)
    {creates : List (FilePath × ByteArray)}
    (hcreates : ∀ w ∈ creates, w.1 = p.child name) {content : ByteArray}
    (hlast : creates.getLast?.map (·.2) = some content) :
    ∃ t', creates.foldl (fun t (path, content) => created t path content) t = t' ∧
      t.Alike t' ∧ ∀ r, t'.entry? r =
        if r = q then some (.file content) else t.entry? r := by
  refine ⟨_, rfl, ?_⟩
  induction creates generalizing t with
  | nil => cases hlast
  | cons w ws ih =>
      obtain ⟨path, first⟩ := w
      obtain rfl : path = p.child name := hcreates _ List.mem_cons_self
      simp only [List.foldl_cons]
      rw [created_child hname hq hfile first]
      have halike := alike_put_file hfile first
      have hentry : ∀ r, entry? (t.put q (.file first)) r =
          if r = q then some (.file first) else t.entry? r :=
        entry?_put (ne_nil_of_entry hfile) _
      cases ws with
      | nil =>
          cases hlast
          exact ⟨halike, hentry⟩
      | cons w' ws =>
          obtain ⟨halike', hentry'⟩ := ih (halike.there.resolve hq)
            (fun hdirectory => hfile (halike.directory_iff.1 hdirectory))
            (fun x hx => hcreates x (List.mem_cons_of_mem _ hx))
            (by rwa [List.getLast?_cons_cons] at hlast)
          refine ⟨halike.trans halike', fun r => ?_⟩
          rw [hentry', hentry]
          split <;> rfl

end Session

namespace Recording

/-- The merged file stands in the place of the screen recording, unless a segment
leads there by another path; the segments and what was used on the way are
gone, and everything else is as it was. -/
structure Finalized (before after : FileTree) (segments : List FilePath)
    (screen : FilePath) (content : ByteArray) : Prop where
  kept : (∀ p ∈ segments, p ≠ screen →
    before.resolve p ≠ before.resolve screen) →
    after.look screen = .ok (.file content)
  lost : ∀ p ∈ segments, p ≠ screen →
    before.resolve p = before.resolve screen → after.Gone screen
  segment : ∀ p ∈ segments, p ≠ screen → after.Gone p
  manifest : before.resolve (manifestPath screen) ≠ before.resolve screen →
    after.Gone (manifestPath screen)
  merged : after.Gone (mergedPath screen)
  others : ∀ q, before.resolve screen ≠ .ok q →
    before.resolve (manifestPath screen) ≠ .ok q →
    before.resolve (mergedPath screen) ≠ .ok q →
    (∀ p ∈ segments, before.resolve p ≠ .ok q) →
    after.entry? q = before.entry? q

section Successes

variable {host : Host} {s s' after : Session} {segments : List FilePath}
variable {screen path : FilePath} {result : Except Failure String}
variable {content : ByteArray}

/-- After a failure of the encoder there is no success. -/
theorem settle_fails (host : Host) (after : Session) (screen : FilePath)
    (failure : Failure) :
    ∃ failure' s', (settle screen (.error failure)).outcome host after =
      (.error failure', s') := by
  rw [settle, outcome_bind_ok (outcome_attempt _)]
  generalize (Action.outcome _ host after) = out
  obtain ⟨cleaned, s⟩ := out
  dsimp only
  cases hdiscard : s.files.discard (manifestPath screen) with
  | error why =>
      exact ⟨_, _, outcome_bind_error (outcome_change_error hdiscard) _⟩
  | ok t =>
      rw [outcome_bind_ok (outcome_change_ok hdiscard)]
      cases cleaned with
      | error why => exact ⟨why, _, rfl⟩
      | ok _ => exact ⟨failure, _, rfl⟩

/-- What an encoder leaves that writes the merged file and nothing else. -/
theorem Joined.after_success {told : String}
    (h : Joined host s segments screen (.ok told) after)
    (hwrites : ∀ w ∈ host.course.creates, w.1 = mergedPath screen)
    (hlast : host.course.creates.getLast?.map (·.2) = some content)
    (hmerged : s.files.look (mergedPath screen) ≠ .ok .directory) :
    s.files.Alike after.files ∧ ∀ r, r ≠ home s screen ++ [manifestName] →
      after.files.entry? r = if r = home s screen ++ [mergedName]
        then some (.file content) else s.files.entry? r := by
  have hplace := h.manifest
  have hplace' := h.merged
  obtain ⟨t, hwrite, hencode⟩ := h
  obtain ⟨q, hq, hfile, rfl⟩ := write_eq_ok_iff.1 hwrite
  cases hplace.symm.trans hq
  obtain ⟨s', hencode', _, hfiles⟩ := outcome_encode host
    { s with files := s.files.put (home s screen ++ [manifestName]) _ }
    (joining host screen)
  rw [hencode] at hencode'
  have hafter : after = s' := congrArg Prod.snd hencode'
  have hresult := congrArg Prod.fst hencode'
  cases hran : (s.runner.run (joining host screen) host.course).1.result with
  | error why => rw [hran] at hresult; cases hresult
  | ok told' =>
      obtain ⟨hnotes, hstarted, hrefusal⟩ := Runner.run_ok hran
      have halike := alike_put_file hfile
        (Manifest.text (segments.map FilePath.toText)).toUTF8
      have hnot : s.files.entry? (home s screen ++ [mergedName]) ≠
          some .directory := fun hdirectory =>
        hmerged (look_eq_ok_iff.2 ⟨_, hplace', hdirectory⟩)
      obtain ⟨t', ht', halike', hentry⟩ := created_all (by decide)
        (halike.there.resolve hplace')
        (fun hdirectory => hnot (halike.directory_iff.1 hdirectory))
        hwrites hlast
      have hleft : after.files = t' := by
        rw [hafter, hfiles hnotes, filesAfter, hstarted, hrefusal]
        exact ht'
      rw [hleft]
      refine ⟨halike.trans halike', fun r hr => ?_⟩
      rw [hentry, entry?_put (by simp), if_neg hr]

/-- The moves after the encoder, seen as one change. -/
theorem finalized_entries {told : String} {t v x y : FileTree}
    (h : Joined host s segments screen (.ok told) after)
    (hground : s.files.Grounded) (halike : s.files.Alike after.files)
    (hwritten : ∀ r, r ≠ home s screen ++ [manifestName] →
      after.files.entry? r = if r = home s screen ++ [mergedName]
        then some (.file content) else s.files.entry? r)
    (ht : after.files.discard (manifestPath screen) = .ok t)
    (hv : v = t ∧ t.Gone screen ∨ t.unlink screen = .ok v)
    (hrename : v.rename (mergedPath screen) screen = .ok x)
    (hy : x.discardAll (segments.filter (· ≠ screen)) = .ok y) :
    s.files.Alike y ∧ ∃ place, s.files.resolve screen = .ok place ∧
      place ≠ home s screen ++ [mergedName] ∧
      ∀ r, y.entry? r =
        if ∃ p ∈ segments, p ≠ screen ∧ s.files.resolve p = .ok r then none
        else if r = place then some (.file content)
        else if r = home s screen ++ [mergedName] then none
        else if r = home s screen ++ [manifestName] then none
        else s.files.entry? r := by
  obtain ⟨source, place, e, hsource, hplace, hentry, _⟩ := rename_eq_ok hrename
  have hb := bared h ht hv hplace
  cases (hb.alike.there.resolve h.merged_after).symm.trans hsource
  have hne : place ≠ home s screen ++ [mergedName] := by
    rintro rfl
    rw [hb.entry, if_pos (.inl rfl)] at hentry
    cases hentry
  have hmoved : v.look (mergedPath screen) = .ok (.file content) := by
    refine look_eq_ok_iff.2 ⟨_, hsource, ?_⟩
    rw [hb.same hne.symm (names_differ _).symm,
      hwritten _ (names_differ _).symm, if_pos rfl]
  obtain ⟨_, _, hsource', hplace', halike_x, _, hentry_x⟩ :=
    rename_file (hb.grounded (h.grows.grounded hground)) hrename hmoved
  cases hsource.symm.trans hsource'
  cases hplace.symm.trans hplace'
  obtain ⟨halike_y, hentry_y⟩ := discardAll_eq_ok hy
  have halike' := (halike.trans hb.alike).trans halike_x
  refine ⟨halike'.trans halike_y, place, hb.found, hne, fun r => ?_⟩
  have hremoved : (∃ p ∈ segments.filter (· ≠ screen), x.resolve p = .ok r) ↔
      ∃ p ∈ segments, p ≠ screen ∧ s.files.resolve p = .ok r := by
    simp only [List.mem_filter, decide_eq_true_eq, and_assoc,
      halike'.resolve_iff]
  rw [hentry_y, hentry_x]
  simp only [hremoved]
  split
  · rfl
  · split
    · rfl
    · next hr =>
        by_cases hmanifest : r = home s screen ++ [manifestName]
        · rw [hb.entry, if_pos (Or.inr hmanifest), if_pos hmanifest, ite_self]
        · rw [hb.same hr hmanifest, if_neg hmanifest, hwritten r hmanifest]
          split <;> rfl

/-- What the entries say about the paths. -/
theorem finalized_of_entries {before t : FileTree} {manifest merged : Place}
    (hmanifest : before.resolve (manifestPath screen) = .ok manifest)
    (hmerged : before.resolve (mergedPath screen) = .ok merged)
    (h : before.Alike t ∧ ∃ place, before.resolve screen = .ok place ∧
      place ≠ merged ∧ ∀ r, t.entry? r =
        if ∃ p ∈ segments, p ≠ screen ∧ before.resolve p = .ok r then none
        else if r = place then some (.file content)
        else if r = merged then none
        else if r = manifest then none
        else before.entry? r) :
    Finalized before t segments screen content := by
  obtain ⟨halike, place, hplace, hne, hentry⟩ := h
  have hremoved : ∀ p ∈ segments, p ≠ screen → t.Gone p := by
    intro p hp hne' e he
    obtain ⟨q, hq, he'⟩ := look_eq_ok_iff.1 he
    rw [hentry, if_pos ⟨p, hp, hne', halike.resolve_iff.1 hq⟩] at he'
    cases he'
  have hscreen := halike.there.resolve hplace
  constructor
  · intro hother
    refine look_eq_ok_iff.2 ⟨place, hscreen, ?_⟩
    rw [hentry, if_neg, if_pos rfl]
    rintro ⟨p, hp, hne', hsame⟩
    exact hother p hp hne' (hsame.trans hplace.symm)
  · intro p hp hne' hsame
    rw [gone_iff hscreen, hentry, if_pos ⟨p, hp, hne', hsame.trans hplace⟩]
  · exact hremoved
  · intro hother
    have hne' : manifest ≠ place := by
      rintro rfl
      exact hother (hmanifest.trans hplace.symm)
    rw [gone_iff (halike.there.resolve hmanifest), hentry, if_neg hne',
      if_pos rfl]
    simp only [ite_self]
  · rw [gone_iff (halike.there.resolve hmerged), hentry, if_neg hne.symm,
      if_pos rfl, ite_self]
  · intro q hq hq' hq'' hsegments
    rw [hentry, if_neg, if_neg, if_neg, if_neg]
    · rintro rfl
      exact hq' hmanifest
    · rintro rfl
      exact hq'' hmerged
    · rintro rfl
      exact hq hplace
    · rintro ⟨p, hp, _, hsame⟩
      exact hsegments p hp hsame

/-- When joining succeeds, the segments apart from the screen recording are gone
with what was used on the way, and the merged file stands in the place of the
screen recording unless a segment has led there by another path. -/
theorem merged_recording (host : Host) (s : Session) (segments : List FilePath)
    (screen : FilePath) (content : ByteArray) (hcount : 2 ≤ segments.length)
    (hground : s.files.Grounded)
    (hwrites : ∀ w ∈ host.course.creates, w.1 = mergedPath screen)
    (hlast : host.course.creates.getLast?.map (·.2) = some content)
    (hmerged : s.files.look (mergedPath screen) ≠ .ok .directory)
    (hdone : ((concatenate segments screen).outcome host s).1 = .ok path) :
    path = screen ∧ Finalized s.files
      ((concatenate segments screen).outcome host s).2.files segments screen
        content := by
  rcases concatenate_outcome hcount host s screen with
    ⟨why, _, hout⟩ | ⟨result, after, h, hout⟩
  · rw [hout] at hdone
    cases hdone
  rw [hout, finish] at hdone ⊢
  cases result with
  | error failure =>
      obtain ⟨_, _, hfails⟩ :=
        settle_fails host after screen failure
      rw [outcome_bind_error hfails] at hdone
      cases hdone
  | ok told =>
      obtain ⟨halike, hwritten⟩ := h.after_success hwrites hlast hmerged
      obtain ⟨c, hmanifest⟩ := h.manifest_file
      obtain ⟨s₁, hsettle, ht⟩ := settle_ok host told
        h.manifest_after (not_directory hmanifest)
      rw [outcome_bind_ok hsettle] at hdone ⊢
      rcases replace_cases (mergedPath screen) screen host s₁ with
        ⟨why, hreplace, _⟩ | ⟨v, hv, hreplace⟩
      · rw [outcome_bind_error hreplace] at hdone
        cases hdone
      cases hrename : v.rename (mergedPath screen) screen with
      | error why =>
          have hstop := hreplace.trans
            (outcome_change_error (s := { s₁ with files := v }) hrename)
          rw [outcome_bind_error hstop] at hdone
          cases hdone
      | ok x =>
          have hmoved := hreplace.trans
            (outcome_change_ok (s := { s₁ with files := v }) hrename)
          rw [outcome_bind_ok hmoved, removeSegments] at hdone ⊢
          rcases outcome_discards (segments.filter (· ≠ screen)) host
            { s₁ with files := x } with ⟨y, hy, hall⟩ | ⟨_, _, _, hfails⟩
          · rw [outcome_bind_ok hall] at hdone ⊢
            cases hdone
            exact ⟨rfl, finalized_of_entries h.manifest h.merged
              (finalized_entries h hground halike hwritten ht hv hrename hy)⟩
          · rw [outcome_bind_error hfails] at hdone
            cases hdone

/-! ## Two segments, one of which is the screen recording -/

/-- An encoder that writes the merged file. -/
def merging : Run.Course where
  creates := [(inRec "screen_merged.mp4", "merged".toUTF8)]

/-- The screen recording is continued by a take, and is kept. -/
theorem merged_recording_continued :
    Finalized retaken ((concatenate [inRec "screen.mp4", inRec "b.mp4"]
      (inRec "screen.mp4")).outcome (hostWith merging)
        { files := retaken }).2.files
        [inRec "screen.mp4", inRec "b.mp4"] (inRec "screen.mp4")
          "merged".toUTF8 := by
  have hdone : ((concatenate [inRec "screen.mp4", inRec "b.mp4"]
      (inRec "screen.mp4")).outcome (hostWith merging)
        { files := retaken }).1 = .ok (inRec "screen.mp4") :=
    ok_of_toOption (by decide +kernel)
  exact (merged_recording (hostWith merging) { files := retaken }
    [inRec "screen.mp4", inRec "b.mp4"] (inRec "screen.mp4") "merged".toUTF8
    (by decide) grounded_retaken (by decide) (by decide +kernel)
    (by decide +kernel) hdone).2

/-- The screen recording as one of the segments, by a path that goes up and down
again. -/
def roundabout : FilePath := ⟨.here, ["rec", "..", "rec", "screen.mp4"]⟩

/-- Joining succeeds, and the merged file is gone. -/
theorem merged_file_lost :
    (∀ w ∈ (hostWith merging).course.creates,
      w.1 = mergedPath (inRec "screen.mp4")) ∧
    (∀ p ∈ [roundabout, inRec "b.mp4"],
      ∃ c, retaken.look p = .ok (.file c)) ∧
    ((concatenate [roundabout, inRec "b.mp4"] (inRec "screen.mp4")).outcome
      (hostWith merging) { files := retaken }).1 = .ok (inRec "screen.mp4") ∧
    ((concatenate [roundabout, inRec "b.mp4"] (inRec "screen.mp4")).outcome
      (hostWith merging) { files := retaken }).2.files.Gone
        (inRec "screen.mp4") := by
  have hround : retaken.look roundabout = .ok (.file "old".toUTF8) := by
    decide +kernel
  have hb : retaken.look (inRec "b.mp4") = .ok (.file "b".toUTF8) := by
    decide +kernel
  refine ⟨by decide, ?_, ok_of_toOption (by decide +kernel),
    gone_of_look .notFound (by decide +kernel)⟩
  simp only [List.forall_mem_cons]
  exact ⟨⟨_, hround⟩, ⟨_, hb⟩, fun _ h => nomatch h⟩

end Successes

end Recording

end Cutlist
