import Cutlist.Proofs.Constancy
import Cutlist.Proofs.Footage
import Cutlist.Proofs.TrimmedStages

/-!
# What the pieces of a timeline show

Where the picture is cut, every piece is played from its own beginning at its
own speed, behind all pieces before it. `Plays` says so of one instant of the
recording and one of the export, by recursion on the pieces and without a
filter; and the chains of a timeline show just that.
-/

namespace Cutlist

open FilterGraph Render Footage

/-- The seconds that a piece takes. -/
noncomputable def Piece.takes (q : Piece) : ℝ :=
  ((q.stop.value : ℝ) - q.start.value) / q.speed.value

/-- Pieces played one after another show an instant of the recording at an
instant of the export. -/
inductive Plays : List Piece → ℝ → ℝ → Prop
  | here {q : Piece} {more : List Piece} {t : ℝ}
      (h : Contains q.start q.stop t) :
      Plays (q :: more) t ((t - q.start.value) / q.speed.value)
  | later {q : Piece} {more : List Piece} {t u : ℝ} (h : Plays more t u) :
      Plays (q :: more) t (q.takes + u)

/-- What pieces of an input show. -/
def played (input : Nat) (pieces : List Piece) : Footage :=
  {x | ∃ t, x.2 = .picture input t ∧ Plays pieces t x.1}

/-- A piece that takes time. -/
structure Piece.Advances (q : Piece) : Prop where
  rising : q.start.value < q.stop.value
  forward : 0 < q.speed.value

/-- Nothing is played before the export begins. -/
theorem Plays.nonneg {pieces : List Piece} {t u : ℝ}
    (hforward : ∀ q ∈ pieces, 0 < q.speed.value)
    (hrising : 1 < pieces.length → ∀ q ∈ pieces, q.start.value < q.stop.value)
    (h : Plays pieces t u) : 0 ≤ u := by
  induction h with
  | @here q more t h =>
      have hq : (0 : ℝ) < q.speed.value := by
        exact_mod_cast hforward q (List.mem_cons_self ..)
      exact div_nonneg (sub_nonneg.2 h.1) hq.le
  | @later q more t u h ih =>
      -- A piece that is skipped is followed by the one that is seen.
      have hmany : 1 < (q :: more).length := by
        cases h with
        | here => simp
        | later => simp
      have hq : (0 : ℝ) < q.speed.value := by
        exact_mod_cast hforward q (List.mem_cons_self ..)
      have hlength : (q.start.value : ℝ) < q.stop.value := by
        exact_mod_cast hrising hmany q (List.mem_cons_self ..)
      have hmore := ih (fun r hr => hforward r (List.mem_cons_of_mem q hr))
        fun _ r hr => hrising hmany r (List.mem_cons_of_mem q hr)
      exact add_nonneg (div_nonneg (sub_nonneg.2 hlength.le) hq.le) hmore

namespace Footage

variable {input : Nat} {q : Piece}

theorem plays_single {t u : ℝ} : Plays [q] t u ↔
    Contains q.start q.stop t ∧ u = (t - q.start.value) / q.speed.value := by
  constructor
  · intro h
    cases h with
    | here h => exact ⟨h, rfl⟩
    | later h => cases h
  · rintro ⟨h, rfl⟩
    exact .here h

/-! ## One piece -/

theorem instants_within_recording (start stop : ℝ) :
    ((recording input).within start (some stop)).instants =
      Set.Ico start stop := by
  ext u
  rw [mem_instants]
  constructor
  · rintro ⟨_, _, hstart, hstop⟩
    exact ⟨hstart, hstop stop rfl⟩
  · rintro ⟨hstart, hstop⟩
    refine ⟨.picture input u, rfl, hstart, ?_⟩
    rintro e he
    rw [Option.mem_some_iff] at he
    exact he ▸ hstop

/-- What is cut out of a recording and played at a speed. -/
theorem replayed_within :
    ((recording input).within q.start.value (some (q.stop.value : ℝ))).replayed
      q.speed.value = played input [q] := by
  ext ⟨u, sight⟩
  constructor
  · rintro ⟨first, t, hfirst, ⟨hsight, hstart, hstop⟩, hu⟩
    have hcontains : Contains q.start q.stop t := ⟨hstart, hstop _ rfl⟩
    rw [instants_within_recording] at hfirst
    obtain rfl : first = q.start.value :=
      hfirst.unique (isLeast_Ico (lt_of_le_of_lt hstart (hstop _ rfl)))
    exact ⟨t, hsight, plays_single.2 ⟨hcontains, hu⟩⟩
  · rintro ⟨t, hsight, hplays⟩
    obtain ⟨hcontains, hu⟩ := plays_single.1 hplays
    refine ⟨q.start.value, t, ?_, ⟨hsight, hcontains.1, ?_⟩, hu⟩
    · rw [instants_within_recording]
      exact isLeast_Ico (lt_of_le_of_lt hcontains.1 hcontains.2)
    · intro e he
      rw [Option.mem_some_iff] at he
      exact he ▸ hcontains.2

theorem runs_zoom (zoom : Option ActiveZoom) (size : Resolution) (F : Footage) :
    runs ((zoom.map (Picture.zoomFilters · size)).getD []) F = F := by
  cases zoom with
  | none => rfl
  | some zoom => rfl

theorem runs_append (fs gs : List Filter) (F : Footage) :
    runs (fs ++ gs) F = runs gs (runs fs F) := List.foldl_append

theorem runs_pieceFilters (size : Resolution) :
    runs (Picture.pieceFilters size q) (recording input) = played input [q] := by
  rw [Picture.pieceFilters, runs_append, runs_zoom]
  exact replayed_within

/-! ## Several pieces -/

/-- A piece is played from 0 on for as long as it takes. -/
theorem instants_played_single (h : q.Advances) :
    (played input [q]).instants = Set.Ico 0 q.takes := by
  have hforward : (0 : ℝ) < q.speed.value := by exact_mod_cast h.forward
  ext u
  rw [mem_instants]
  constructor
  · rintro ⟨_, t, _, hplays⟩
    obtain ⟨⟨hstart, hstop⟩, hu⟩ := plays_single.1 hplays
    dsimp only at hu
    rw [hu]
    refine ⟨div_nonneg (sub_nonneg.2 hstart) hforward.le, ?_⟩
    exact (div_lt_div_iff_of_pos_right hforward).2 (sub_lt_sub_right hstop _)
  · rintro ⟨hstart, hstop⟩
    refine ⟨.picture input (q.start.value + u * q.speed.value),
      q.start.value + u * q.speed.value, rfl, plays_single.2 ⟨⟨?_, ?_⟩, ?_⟩⟩
    · exact le_add_of_nonneg_right (mul_nonneg hstart hforward.le)
    · rw [Piece.takes, lt_div_iff₀ hforward] at hstop
      linarith
    · rw [add_sub_cancel_left, mul_div_cancel_right₀ _ hforward.ne']

theorem joined_played {pieces : List Piece} (h : ∀ q ∈ pieces, q.Advances) :
    joined (pieces.map fun q => played input [q]) = played input pieces := by
  induction pieces with
  | nil =>
      refine (Set.eq_empty_of_forall_notMem ?_).symm
      rintro x ⟨t, _, hplays⟩
      cases hplays
  | cons q more ih =>
      have hq := h q (List.mem_cons_self ..)
      have hrising : (0 : ℝ) < q.takes := by
        have hforward : (0 : ℝ) < q.speed.value := by exact_mod_cast hq.forward
        refine div_pos (sub_pos.2 ?_) hforward
        exact_mod_cast hq.rising
      -- What comes behind a piece begins where its footage ends.
      have hlength : IsLUB (played input [q]).instants q.takes := by
        rw [instants_played_single hq]
        exact isLUB_Ico hrising
      rw [List.map_cons, joined, ih fun r hr => h r (List.mem_cons_of_mem q hr)]
      ext ⟨u, sight⟩
      constructor
      · rintro (⟨t, hsight, hplays⟩ | ⟨length, hlub, t, hsight, hplays⟩)
        · obtain ⟨hcontains, hu⟩ := plays_single.1 hplays
          exact ⟨t, hsight, hu ▸ .here hcontains⟩
        · obtain rfl := hlub.unique hlength
          refine ⟨t, hsight, ?_⟩
          have := Plays.later (q := q) hplays
          rwa [add_sub_cancel] at this
      · rintro ⟨t, hsight, hplays⟩
        cases hplays with
        | here hcontains => exact .inl ⟨t, hsight, .here hcontains⟩
        | @later _ _ _ v hplays =>
            refine .inr ⟨q.takes, hlength, t, hsight, ?_⟩
            show Plays more t (q.takes + v - q.takes)
            rwa [add_sub_cancel_left]

end Footage

/-! ## The chains of a timeline -/

section Stages

variable {excuse : Prop} {source : Label} {input : Nat}

/-- The parts of a timeline show their pieces. -/
theorem parts_show {size : Resolution} {F : Label → Footage}
    (hsource : F source = recording input) {pieces : List Piece}
    {chains : List Chain} (hruns : List.Forall₂ (fun q c =>
      FilterGraph.Runs source (Picture.pieceFilters size q) c) pieces chains)
    (h : Obeys F chains) : (chains.flatMap Chain.outputs).map F =
      pieces.map fun q => played input [q] := by
  induction hruns with
  | nil => rfl
  | cons hrun _ ih =>
      obtain ⟨l, rfl⟩ := hrun
      rw [← List.singleton_append] at h
      rw [List.flatMap_cons, List.map_append, ih h.right, List.map_singleton,
        h.left.single, hsource, runs_pieceFilters]
      rfl

/-- The chains of a timeline show its pieces. Only where there are several does
it matter that they advance. -/
theorem Render.Picture.timeline_shows (input : Nat) {pieces : List Piece}
    (size : Resolution)
    (hne : pieces ≠ [])
    (hadvance : 1 < pieces.length → ∀ q ∈ pieces, q.Advances) :
    Adds excuse (Picture.timeline source pieces size) fun l new =>
      new ≠ [] ∧ ∀ F, Obeys F new → F source = recording input →
        F l = played input pieces := by
  refine .bind (parts_run (by decide) pieces) fun parts new ⟨hruns, hparts⟩ => ?_
  have hshow : ∀ F, Obeys F new → F source = recording input →
      parts.map F = pieces.map fun q => played input [q] := by
    intro F hF hsource
    rw [hparts]
    exact parts_show hsource hruns hF
  have hcount : parts.length = pieces.length := by
    rw [hparts]
    exact length_outputs (fun _ _ ⟨l, hc⟩ => ⟨l, by rw [hc]⟩) hruns
  have hnew : new ≠ [] := by
    rintro rfl
    exact hne (List.forall₂_nil_right_iff.1 hruns)
  rcases parts with _ | ⟨part, _ | ⟨next, more⟩⟩
  · exact absurd (List.length_eq_zero_iff.1 hcount.symm) hne
  · refine .pure ?_
    rw [List.append_nil]
    refine ⟨hnew, fun F hF hsource => ?_⟩
    obtain ⟨q, rfl⟩ := List.length_eq_one_iff.1 hcount.symm
    exact (List.cons.inj (hshow F hF hsource)).1
  · refine .join (by decide) fun name =>
      ⟨List.append_ne_nil_of_left_ne_nil hnew _, fun F hF hsource => ?_⟩
    have hmany : 1 < pieces.length := by
      rw [← hcount]
      exact Nat.succ_lt_succ (Nat.succ_pos _)
    rw [hF.right _ (List.mem_singleton.2 rfl) _ (List.mem_singleton.2 rfl)]
    show joined ((part :: next :: more).map F) = _
    rw [hshow F hF.left hsource, joined_played (hadvance hmany)]

end Stages

end Cutlist
