import Cutlist.Recording
import Cutlist.Proofs.Outcomes

/-!
# Putting segments together

Segments are joined in three stages: the encoder writes the merged file beside
a manifest, the merged file is put into the place of the screen recording, and
the segments are removed. A failure in one stage leaves what the stages before
it have done. The stages are told apart here once, with the tree that each of
them finds and leaves; what a failure may cost and what a success brings are
both read off from them.
-/

namespace Cutlist

open Session Cutlist.Action FileTree

/-- An encoder that succeeds has started and has nothing to complain of. -/
theorem Runner.run_ok {job : Run.Job} {course : Run.Course} {r : Runner}
    {told : String} (h : (r.run job course).1.result = .ok told) :
    (r.run job course).1.notes = [] ∧
      (r.run job course).1.started.isSome = true ∧ course.refusal = none := by
  rw [Runner.run] at h ⊢
  cases hstarted : job.started? with
  | none => rw [hstarted] at h; cases h
  | some command =>
      rw [hstarted] at h
      cases hrefusal : course.refusal with
      | some why => rw [hrefusal] at h; cases h
      | none =>
          rw [hrefusal] at h
          dsimp only [Runner.supervise] at h ⊢
          cases hbroken : (Run.Reading.follow job course.steps
              { runner := Runner.start course }).2 with
          | some b => rw [hbroken] at h; cases h
          | none =>
              rw [hbroken] at h
              dsimp only at h ⊢
              exact ⟨by rw [h]; rfl, by rw [hstarted]; rfl, rfl⟩

/-- A path leads to nothing. -/
def FileTree.Gone (t : FileTree) (p : FilePath) : Prop := ∀ e, t.look p ≠ .ok e

namespace FileTree

variable {t t' : FileTree} {p : FilePath} {q : Place} {e : Entry}

theorem gone_iff (hq : t.resolve p = .ok q) :
    t.Gone p ↔ t.entry? q = none := by
  constructor
  · intro hgone
    cases hentry : t.entry? q with
    | none => rfl
    | some e => exact absurd (look_eq_ok_iff.2 ⟨q, hq, hentry⟩) (hgone e)
  · intro hnone e hlook
    obtain ⟨_, hq', hentry⟩ := look_eq_ok_iff.1 hlook
    cases hq.symm.trans hq'
    rw [hnone] at hentry
    cases hentry

/-- What is still at its place is found as before. -/
theorem Alike.look (h : t.Alike t') (hlook : t.look p = .ok e)
    (hentry : ∀ q, t.resolve p = .ok q → t'.entry? q = t.entry? q) :
    t'.look p = .ok e := by
  obtain ⟨q, hq, hold⟩ := look_eq_ok_iff.1 hlook
  exact look_eq_ok_iff.2
    ⟨q, h.there.resolve hq, (hentry q hq).trans hold⟩

end FileTree

namespace Recording

/-- The manifest that stands beside a recording while it is put together. -/
def manifestPath (screen : FilePath) : FilePath :=
  screen.parent.child manifestName

/-- The merged file that stands beside a recording while it is put together. -/
def mergedPath (screen : FilePath) : FilePath := screen.parent.child mergedName

/-- The program of the encoder: the one that is set, else the one that is found,
else its name. -/
def program (host : Host) : String :=
  ((host.settings.ffmpeg.filter (· != "")).orElse fun _ =>
    (host.which "ffmpeg").filter (· != "")).getD "ffmpeg"

/-- What the encoder is asked to do. -/
def joining (host : Host) (screen : FilePath) : Run.Job where
  command := program host :: Export.Command.concatArgs
    (manifestPath screen).toText (mergedPath screen).toText

/-- The manifest of the segments is written, and then the encoder is done with
joining them: how that went and what session it leaves. -/
def Joined (host : Host) (s : Session) (segments : List FilePath)
    (screen : FilePath) (result : Except Failure String) (after : Session) :
    Prop :=
  ∃ t, s.files.write (manifestPath screen)
      (Manifest.text (segments.map FilePath.toText)).toUTF8 = .ok t ∧
    (encode (joining host screen)).outcome host { s with files := t } =
      (result, after)

/-- What is cleared away when the encoder is done. -/
def settle (screen : FilePath) : Except Failure String → Action Unit
  | .ok _ => change (·.discard (manifestPath screen))
  | .error failure => do
      let cleaned ← attempt (if failure.ofEncoder?.isSome then
        change (·.discard (mergedPath screen)) else pure ())
      change (·.discard (manifestPath screen))
      let () ← ofExcept id cleaned
      throw failure

/-- What is done after the encoder. -/
def finish (segments : List FilePath) (screen : FilePath)
    (result : Except Failure String) : Action FilePath := do
  settle screen result
  replace (mergedPath screen) screen
  removeSegments segments screen
  return screen

section Stages

variable {host : Host} {s s' after : Session} {segments : List FilePath}
variable {screen : FilePath} {result : Except Failure String}
variable {failure : Failure}

theorem outcome_ffmpeg (host : Host) (s : Session) :
    ffmpeg.outcome host s = (.ok (program host), s) := rfl

theorem outcome_merge
    (h : (encode (joining host screen)).outcome host s = (result, after)) :
    (merge (manifestPath screen) (mergedPath screen)).outcome host s =
      (settle screen result).outcome host after := by
  have hattempt : (attempt (encode (joining host screen))).outcome host s =
      (.ok result, after) := by rw [outcome_attempt, h]
  rw [merge, outcome_bind_ok (outcome_ffmpeg host s)]
  refine (outcome_bind_ok hattempt _).trans ?_
  cases result <;> rfl

theorem concatenate_outcome (hcount : 2 ≤ segments.length) (host : Host)
    (s : Session) (screen : FilePath) :
    (∃ why, s.files.write (manifestPath screen)
        (Manifest.text (segments.map FilePath.toText)).toUTF8 = .error why ∧
      (concatenate segments screen).outcome host s = (.error (.file why), s)) ∨
    ∃ result after, Joined host s segments screen result after ∧
      (concatenate segments screen).outcome host s =
        (finish segments screen result).outcome host after := by
  have hlong : ¬ segments.length ≤ 1 := by omega
  rw [concatenate, if_neg hlong]
  cases hwrite : s.files.write (manifestPath screen)
      (Manifest.text (segments.map FilePath.toText)).toUTF8 with
  | error why =>
      exact .inl ⟨why, rfl, outcome_bind_error
        (outcome_bind_error (outcome_change_error hwrite) _) _⟩
  | ok t =>
      have hmanifest : (writeManifest (segments.map FilePath.toText)
          (manifestPath screen)).outcome host s =
            (.ok (manifestPath screen), { s with files := t }) :=
        outcome_bind_ok (outcome_change_ok hwrite) _
      rcases hrun : (encode (joining host screen)).outcome host
        { s with files := t } with ⟨result, after⟩
      refine .inr ⟨result, after, ⟨t, hwrite, hrun⟩, ?_⟩
      exact (outcome_bind_ok hmanifest _).trans
        (outcome_bind_congr (outcome_merge hrun) _)

/-! ## When the encoder is done -/

/-- The directory of the screen recording. -/
def home (s : Session) (screen : FilePath) : Place :=
  s.files.target screen.parent

theorem names_differ (place : Place) :
    place ++ [manifestName] ≠ place ++ [mergedName] := by
  simp [manifestName, mergedName]

namespace Joined

theorem manifest (h : Joined host s segments screen result after) :
    s.files.resolve (manifestPath screen) =
      .ok (home s screen ++ [manifestName]) := by
  obtain ⟨t, hwrite, _⟩ := h
  obtain ⟨q, hq, _⟩ := write_eq_ok_iff.1 hwrite
  rw [hq, ((resolve_child_iff (by decide)).1 hq).2.2.2.2]
  rfl

theorem merged (h : Joined host s segments screen result after) :
    s.files.resolve (mergedPath screen) =
      .ok (home s screen ++ [mergedName]) :=
  resolve_sibling h.manifest (by decide) (by decide) (by decide) (by decide)

theorem grows (h : Joined host s segments screen result after) :
    s.files.Grows after.files := by
  obtain ⟨t, hwrite, hencode⟩ := h
  obtain ⟨s', hencode', hgrows, _⟩ := outcome_encode host
    { s with files := t } (joining host screen)
  cases hencode.symm.trans hencode'
  exact (write_grows hwrite).trans hgrows

theorem manifest_after (h : Joined host s segments screen result after) :
    after.files.resolve (manifestPath screen) =
      .ok (home s screen ++ [manifestName]) :=
  h.grows.resolve h.manifest

theorem merged_after (h : Joined host s segments screen result after) :
    after.files.resolve (mergedPath screen) =
      .ok (home s screen ++ [mergedName]) :=
  h.grows.resolve h.merged

/-- The manifest is still there, whatever is in it. -/
theorem manifest_file (h : Joined host s segments screen result after) :
    ∃ c, after.files.entry? (home s screen ++ [manifestName]) =
      some (.file c) := by
  have hmanifest := h.manifest
  obtain ⟨t, hwrite, hencode⟩ := h
  obtain ⟨s', hencode', hgrows, _⟩ := outcome_encode host
    { s with files := t } (joining host screen)
  cases hencode.symm.trans hencode'
  obtain ⟨q, hq, hentry, rfl⟩ := write_eq_ok_iff.1 hwrite
  cases hmanifest.symm.trans hq
  exact hgrows.file _ _ (by rw [entry?_put (by simp), if_pos rfl])

end Joined

theorem settle_ok (host : Host) (told : String) {q : Place}
    (hq : after.files.resolve (manifestPath screen) = .ok q)
    (hfile : after.files.entry? q ≠ some .directory) :
    ∃ s', (settle screen (.ok told)).outcome host after = (.ok (), s') ∧
      after.files.discard (manifestPath screen) = .ok s'.files := by
  obtain ⟨t, ht⟩ := exists_discard hq hfile
  exact ⟨_, outcome_change_ok ht, ht⟩

/-- What is cleared away after a failure: what the encoder has written only if
the failure is its own. -/
def cleared (screen : FilePath) (failure : Failure) : List FilePath :=
  if failure.ofEncoder?.isSome then [mergedPath screen, manifestPath screen]
  else [manifestPath screen]

theorem settle_error (host : Host)
    (h : ∀ p ∈ [mergedPath screen, manifestPath screen], ∃ q,
      after.files.resolve p = .ok q ∧ after.files.entry? q ≠ some .directory)
    (failure : Failure) :
    ∃ s', (settle screen (.error failure)).outcome host after =
        (.error failure, s') ∧
      after.files.discardAll (cleared screen failure) = .ok s'.files := by
  have hall : ∃ t, after.files.discardAll (cleared screen failure) = .ok t := by
    refine exists_discardAll fun p hp => h p ?_
    rw [cleared] at hp
    split at hp
    · exact hp
    · exact List.mem_cons_of_mem _ hp
  obtain ⟨t, ht⟩ := hall
  refine ⟨{ after with files := t }, ?_, ht⟩
  rw [settle]
  rw [cleared] at ht
  split at ht
  · next hencoder =>
      rw [if_pos hencoder]
      rw [discardAll_cons] at ht
      cases hmerged : after.files.discard (mergedPath screen) with
      | error why => rw [hmerged] at ht; cases ht
      | ok t' =>
          have ht' : t'.discard (manifestPath screen) = .ok t := by
            rw [hmerged] at ht
            exact (bind_pure _).symm.trans ht
          have hattempt :
            (attempt (change (·.discard (mergedPath screen)))).outcome
              host after = (.ok (.ok ()), { after with files := t' }) := by
            rw [outcome_attempt, outcome_change_ok hmerged]
          rw [outcome_bind_ok hattempt, outcome_bind_ok (outcome_change_ok ht')]
          rfl
  · next hother =>
      rw [if_neg hother]
      have ht' : after.files.discard (manifestPath screen) = .ok t :=
        (bind_pure _).symm.trans ht
      have hattempt : (attempt (pure () : Action Unit)).outcome host after =
          (.ok (.ok ()), after) := rfl
      rw [outcome_bind_ok hattempt, outcome_bind_ok (outcome_change_ok ht')]
      rfl

/-! ## Putting the merged file into its place -/

theorem has_cases (t : FileTree) (p : FilePath) :
    (∃ e, t.look p = .ok e ∧ t.has p = .ok true) ∨
      t.Gone p ∧ (t.has p = .ok false ∨ ∃ why, t.has p = .error why) := by
  rw [has, look?]
  cases hlook : t.look p with
  | ok e => exact .inl ⟨e, rfl, rfl⟩
  | error why =>
      refine .inr ⟨fun e he => ?_, ?_⟩
      · rw [hlook] at he
        cases he
      · dsimp only
        split
        · exact .inl rfl
        · exact .inr ⟨why, rfl⟩

theorem replace_cases (merged screen : FilePath) (host : Host) (s : Session) :
    (∃ why, (replace merged screen).outcome host s = (.error (.file why), s) ∧
      ∀ c, s.files.look screen ≠ .ok (.file c)) ∨
    ∃ t, (t = s.files ∧ s.files.Gone screen ∨ s.files.unlink screen = .ok t) ∧
      (replace merged screen).outcome host s =
        (change (·.rename merged screen)).outcome host { s with files := t } := by
  rw [replace]
  rcases has_cases s.files screen with
    ⟨e, hlook, hhas⟩ | ⟨hgone, hhas | ⟨why, hhas⟩⟩
  · have hstep : (look (·.has screen)).outcome host s = (.ok true, s) := by
      rw [outcome_look, hhas]
      rfl
    cases hunlink : s.files.unlink screen with
    | ok t =>
        refine .inr ⟨t, .inr rfl, ?_⟩
        rw [outcome_bind_ok hstep, if_pos rfl,
          outcome_bind_ok (outcome_change_ok hunlink)]
    | error why =>
        refine .inl ⟨why, ?_, fun c hc => ?_⟩
        · rw [outcome_bind_ok hstep, if_pos rfl,
            outcome_bind_error (outcome_change_error hunlink)]
        · obtain ⟨q, hq, hentry⟩ := look_eq_ok_iff.1 hc
          have := unlink_eq_ok_iff.2 ⟨q, c, hq, hentry, rfl⟩
          rw [hunlink] at this
          exact nomatch this
  · have hstep : (look (·.has screen)).outcome host s = (.ok false, s) := by
      rw [outcome_look, hhas]
      rfl
    refine .inr ⟨s.files, .inl ⟨rfl, hgone⟩, ?_⟩
    rw [outcome_bind_ok hstep, if_neg Bool.false_ne_true]
  · have hstep : (look (·.has screen)).outcome host s =
        (.error (.file why), s) := by
      rw [outcome_look, hhas]
      rfl
    exact .inl ⟨why, outcome_bind_error hstep _, fun c => hgone _⟩

/-! ## What is in the way -/

variable {t v : FileTree} {q : Place}

theorem entry?_settled (h : Joined host s segments screen result after)
    (ht : after.files.discard (manifestPath screen) = .ok t) (r : Place) :
    t.entry? r = if r = home s screen ++ [manifestName] then none
      else after.files.entry? r := by
  rw [(discard_eq_ok ht).2, h.manifest_after]
  simp [eq_comm]

/-- The screen recording was found at the beginning where it is found now. -/
theorem Joined.resolve_screen (h : Joined host s segments screen result after)
    (hq : after.files.resolve screen = .ok q) :
    s.files.resolve screen = .ok q := by
  obtain ⟨hspell, hpass, rfl⟩ := resolve_eq_ok_iff.1 hq
  refine resolve_eq_ok_iff.2 ⟨hspell, ?_, h.grows.target screen⟩
  obtain ⟨_, habove, hdirectory, _⟩ :=
    (resolve_child_iff (by decide)).1 h.manifest
  rcases List.eq_nil_or_concat' screen.names with hnil | ⟨names, name, hnames⟩
  · rw [hnil]
    trivial
  · have hparent : screen.parent.names = names := by
      rw [FilePath.parent, hnames, List.dropLast_concat]
    rw [hnames, passable_append] at hpass ⊢
    rw [target, hparent] at hdirectory
    rw [hparent] at habove
    exact ⟨habove, hdirectory, hpass.2.2.1, trivial⟩

/-- The manifest is gone from the tree that the encoder left, and so is the
screen recording, which was at the place `q`. -/
structure Bared (s after : Session) (screen : FilePath) (q : Place)
    (v : FileTree) : Prop where
  found : s.files.resolve screen = .ok q
  alike : after.files.Alike v
  entry : ∀ r, v.entry? r =
    if r = q ∨ r = home s screen ++ [manifestName] then none
    else after.files.entry? r

theorem exists_bared (h : Joined host s segments screen result after)
    (ht : after.files.discard (manifestPath screen) = .ok t)
    (hunlink : t.unlink screen = .ok v) : ∃ q, Bared s after screen q v := by
  obtain ⟨q, c, hq, hscreen, rfl⟩ := unlink_eq_ok_iff.1 hunlink
  have halike := (discard_eq_ok ht).1
  have hfile := not_directory hscreen
  refine ⟨q, Joined.resolve_screen h (halike.resolve_iff.1 hq),
    halike.trans (alike_without hfile), fun r => ?_⟩
  rw [entry?_without_self (ne_nil_of_entry hfile), entry?_settled h ht]
  by_cases hr : r = q <;> simp [hr]

/-- Whether or not there was one, no screen recording is in the way. -/
theorem bared (h : Joined host s segments screen result after)
    (ht : after.files.discard (manifestPath screen) = .ok t)
    (hv : v = t ∧ t.Gone screen ∨ t.unlink screen = .ok v)
    (hq : v.resolve screen = .ok q) : Bared s after screen q v := by
  rcases hv with ⟨rfl, hgone⟩ | hunlink
  · have halike := (discard_eq_ok ht).1
    have hnone := (gone_iff hq).1 hgone
    refine ⟨Joined.resolve_screen h (halike.resolve_iff.1 hq), halike,
      fun r => ?_⟩
    by_cases hr : r = q
    · rw [if_pos (.inl hr), hr, hnone]
    · simp [entry?_settled h ht, hr]
  · obtain ⟨q', hb⟩ := exists_bared h ht hunlink
    cases (hb.alike.there.resolve (h.grows.resolve hb.found)).symm.trans hq
    exact hb

namespace Bared

theorem grounded (hb : Bared s after screen q v)
    (hground : after.files.Grounded) : v.Grounded :=
  hb.alike.grounded hground fun r hr hnone => hr <| by
    rw [hb.entry, hnone, ite_self]

theorem same (hb : Bared s after screen q v) {r : Place} (hr : r ≠ q)
    (hr' : r ≠ home s screen ++ [manifestName]) :
    v.entry? r = after.files.entry? r := by
  rw [hb.entry, if_neg (not_or_intro hr hr')]

end Bared

/-! ## Removing the segments -/

theorem outcome_discards (ps : List FilePath) (host : Host) (s : Session) :
    (∃ t, s.files.discardAll ps = .ok t ∧
      (ps.forM fun p => change (·.discard p)).outcome host s =
        (.ok (), { s with files := t })) ∨
    (∃ why, s.files.discardAll ps = .error why) ∧
      ∃ failure s', (ps.forM fun p => change (·.discard p)).outcome host s =
        (.error failure, s') := by
  induction ps generalizing s with
  | nil => exact .inl ⟨s.files, rfl, rfl⟩
  | cons p ps ih =>
      have hforM : ((p :: ps).forM fun p => change (·.discard p)).outcome host s =
          (change (·.discard p) >>= fun _ =>
            ps.forM fun p => change (·.discard p)).outcome host s := rfl
      rw [discardAll_cons, hforM]
      cases hp : s.files.discard p with
      | error why =>
          exact .inr ⟨⟨why, rfl⟩, _, _,
            outcome_bind_error (outcome_change_error hp) _⟩
      | ok t =>
          rw [outcome_bind_ok (outcome_change_ok hp)]
          exact ih { s with files := t }

end Stages

end Recording

end Cutlist
