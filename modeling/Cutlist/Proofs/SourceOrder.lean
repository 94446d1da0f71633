import Cutlist.Proofs.Tiling

/-!
# Pieces in the order of the recording

Ranges are put in order of their start and cut one by one, and nothing looks at
two of them together. So an instant is shown once for every range that holds
it: where two enabled segments overlap, it is shown twice, and the second
showing goes back to before the end of the first.

What is proved is that this is the only way in which an export leaves the order
of the recording. `plays_once` counts: cutting a range into pieces shows each
of its instants once. `Range.Precedes` orders: ranges of which none reaches
into another are in order of their ends once they are in order of their starts.
Both are read off `Tiles`, one range at a time.
-/

namespace Cutlist

open Binary64 Timeline

namespace Range

/-- The instants of a range, of which its end is not one. -/
def holds (r : Range) (t : ℚ) : Bool :=
  decide (r.start.value ≤ t ∧ t < r.stop.value)

/-- One range ends before another begins. -/
def Precedes (a b : Range) : Prop := a.stop.value ≤ b.start.value

/-- Neither of two ranges reaches into the other. -/
def Apart (a b : Range) : Prop := a.Precedes b ∨ b.Precedes a

/-- A range that ends after it starts. -/
def Forward (r : Range) : Prop := r.start.value < r.stop.value

theorem holds_iff {r : Range} {t : ℚ} :
    r.holds t = true ↔ r.start.value ≤ t ∧ t < r.stop.value := by
  rw [holds, decide_eq_true_iff]

instance (a b : Range) : Decidable (a.Precedes b) :=
  inferInstanceAs (Decidable (_ ≤ _))

instance (a b : Range) : Decidable (a.Apart b) :=
  inferInstanceAs (Decidable (_ ∨ _))

theorem Apart.symm {a b : Range} (h : a.Apart b) : b.Apart a := Or.symm h

/-- Ranges that overlap have an instant in common: the later of their starts. -/
theorem apart_iff {a b : Range} (ha : a.Forward) (hb : b.Forward) :
    a.Apart b ↔ ∀ t, ¬ (a.holds t = true ∧ b.holds t = true) := by
  simp only [holds_iff]
  constructor
  · rintro (hab | hba) t ⟨⟨hat, hta⟩, hbt, htb⟩
    · exact absurd (lt_of_lt_of_le hta hab) (not_lt.2 hbt)
    · exact absurd (lt_of_lt_of_le htb hba) (not_lt.2 hat)
  · intro hnone
    by_contra happart
    obtain ⟨hab, hba⟩ := not_or.1 happart
    refine hnone (max a.start.value b.start.value)
      ⟨⟨le_max_left .., max_lt ha ?_⟩, le_max_right .., max_lt ?_ hb⟩
    · exact not_le.1 hab
    · exact not_le.1 hba

/-- Of two ranges that are apart, the one that starts first ends first. -/
theorem Apart.precedes {a b : Range} (h : a.Apart b) (hb : b.Forward)
    (hle : a.start.value ≤ b.start.value) : a.Precedes b := by
  rcases h with hab | hba
  · exact hab
  · exact absurd (lt_of_lt_of_le hb hba) (not_lt.2 hle)

end Range

/-! ## Lists of ranges -/

theorem countP_le_one {α : Type} (test : α → Bool) (xs : List α) :
    xs.countP test ≤ 1 ↔ xs.Pairwise fun a b =>
      ¬ (test a = true ∧ test b = true) := by
  induction xs with
  | nil => simp
  | cons x xs ih =>
      rw [List.pairwise_cons, ← ih]
      cases hx : test x with
      | false => simp [hx]
      | true =>
          have hzero : xs.countP test = 0 ↔ ∀ a ∈ xs, test a = false := by
            simp [List.countP_eq_zero]
          rw [List.countP_cons_of_pos hx]
          simp only [true_and, Bool.not_eq_true]
          rw [← hzero]
          omega

/-- No instant is held twice by ranges exactly when no two overlap. -/
theorem apart_iff_holds_once {rs : List Range} (h : ∀ r ∈ rs, r.Forward) :
    rs.Pairwise Range.Apart ↔ ∀ t, rs.countP (·.holds t) ≤ 1 := by
  simp only [countP_le_one]
  constructor
  · intro hall t
    refine hall.imp_of_mem fun ha hb hab => ?_
    exact (Range.apart_iff (h _ ha) (h _ hb)).1 hab t
  · intro hall
    rw [List.pairwise_iff_getElem]
    intro i j hi hj hlt
    refine (Range.apart_iff (h _ (List.getElem_mem hi))
      (h _ (List.getElem_mem hj))).2 fun t => ?_
    exact List.pairwise_iff_getElem.1 (hall t) i j hi hj hlt

/-- Ranges each of which ends before the next begins end before all that
follow, since none of them goes back. -/
theorem pairwise_precedes {rs : List Range} (h : ∀ r ∈ rs, r.Forward) :
    rs.IsChain Range.Precedes ↔ rs.Pairwise Range.Precedes := by
  refine ⟨fun hchain => ?_, List.Pairwise.isChain⟩
  induction rs with
  | nil => exact .nil
  | cons r rs ih =>
      have hrest := ih (fun x hx => h x (List.mem_cons_of_mem r hx)) hchain.tail
      refine List.pairwise_cons.2 ⟨fun x hx => ?_, hrest⟩
      cases rs with
      | nil => cases hx
      | cons next rs =>
          have hnext : r.Precedes next := (List.isChain_cons_cons.1 hchain).1
          rcases List.mem_cons.1 hx with rfl | hmem
          · exact hnext
          · have hlater := (List.pairwise_cons.1 hrest).1 x hmem
            have hforward := h next (by simp)
            exact le_trans hnext (le_trans (le_of_lt hforward) hlater)

namespace Tiles

variable {r : Range} {parts : List Range}

theorem forward (h : Tiles r parts) : ∀ part ∈ parts, part.Forward :=
  fun part hpart => (h.within part hpart).2.1

theorem precedes (h : Tiles r parts) : parts.Pairwise Range.Precedes := by
  induction h with
  | whole _ => exact List.pairwise_singleton _ _
  | cut _ rest ih =>
      exact List.pairwise_cons.2
        ⟨fun part hpart => (rest.within part hpart).1, ih⟩

/-- A range that is tiled shows each of its instants once. -/
theorem countP_holds (h : Tiles r parts) (t : ℚ) :
    parts.countP (·.holds t) = if r.holds t then 1 else 0 := by
  induction h with
  | whole _ => rw [List.countP_singleton]
  | @cut whole c parts h rest ih =>
      have hstop := rest.start_lt_stop
      rw [List.countP_cons, ih]
      simp only [Range.holds_iff] at hstop ⊢
      rcases lt_or_ge t c.value with hbefore | hafter
      · have hnot : ¬ (c.value ≤ t ∧ t < whole.stop.value) := fun hin =>
          absurd hbefore (not_lt.2 hin.1)
        have hbelow : t < whole.stop.value := lt_trans hbefore hstop
        rw [if_neg hnot, Nat.zero_add]
        simp only [hbefore, hbelow, and_true]
      · have hnot : ¬ (whole.start.value ≤ t ∧ t < c.value) := fun hin =>
          absurd hin.2 (not_lt.2 hafter)
        have habove := le_trans (le_of_lt h) hafter
        rw [if_neg hnot, Nat.add_zero]
        simp only [hafter, habove, true_and]

/-- Ranges that are tiled one by one show an instant once for each that holds
it. -/
theorem countP_flatMap {rs : List Range} {cut : Range → List Range}
    (h : ∀ r ∈ rs, Tiles r (cut r)) (t : ℚ) :
    (rs.flatMap cut).countP (·.holds t) = rs.countP (·.holds t) := by
  induction rs with
  | nil => rfl
  | cons r rs ih =>
      rw [List.flatMap_cons, List.countP_append, List.countP_cons,
        (h r (List.mem_cons_self ..)).countP_holds,
        ih fun x hx => h x (List.mem_cons_of_mem r hx), Nat.add_comm]

end Tiles

namespace Project

variable {p : Project}

theorem shown_forward : ∀ r ∈ p.shown, r.Forward := by
  intro r hr
  rw [shown, List.mem_filter, decide_eq_true_iff] at hr
  exact hr.2

theorem shown_eq_nil (h : p.HasFiniteTimes) :
    p.shown = [] ↔ p.cutRanges = [] := by
  rw [← List.length_eq_zero_iff, ← List.length_eq_zero_iff,
    (inOrder_cutRanges h).perm.length_eq]

theorem cutRanges_forward (h : p.HasFiniteTimes) :
    ∀ r ∈ p.cutRanges, r.Forward :=
  fun _ hr => ((mem_cutRanges h).1 hr).2

theorem map_range_pieces (h : p.HasFiniteTimes) (hne : p.cutRanges ≠ []) :
    p.pieces.map Piece.range =
      p.cutRanges.flatMap fun r => (p.edits.piecesOf r).map Piece.range := by
  rw [pieces_of_ne_nil h hne, ← List.flatMap_def, List.map_flatMap]

theorem pieces_forward_of_ne_nil (h : p.HasFiniteTimes) (hne : p.cutRanges ≠ []) :
    ∀ part ∈ p.pieces.map Piece.range, part.Forward := by
  rw [map_range_pieces h hne]
  intro part hpart
  obtain ⟨r, hr, hmem⟩ := List.mem_flatMap.1 hpart
  exact (tiles_piecesOf h hr).forward part hmem

/-- An instant is shown once for each range that holds it. -/
theorem countP_pieces_holds (h : p.HasFiniteTimes) (hne : p.cutRanges ≠ [])
    (t : ℚ) : (p.pieces.map Piece.range).countP (·.holds t) =
      p.shown.countP (·.holds t) := by
  rw [map_range_pieces h hne, ← (inOrder_cutRanges h).perm.countP_eq]
  exact Tiles.countP_flatMap (fun r hr => tiles_piecesOf h hr) t

theorem cutRanges_precede (h : p.HasFiniteTimes)
    (happart : p.shown.Pairwise Range.Apart) :
    p.cutRanges.Pairwise Range.Precedes := by
  have hsorted := inOrder_cutRanges h
  have hpairs := (hsorted.perm.pairwise_iff Range.Apart.symm).2 happart
  refine (hpairs.and hsorted.rising).imp_of_mem fun _ hb hab => ?_
  exact hab.1.precedes (cutRanges_forward h _ hb) hab.2

theorem pieces_precede (h : p.HasFiniteTimes) (hne : p.cutRanges ≠ [])
    (happart : p.shown.Pairwise Range.Apart) :
    (p.pieces.map Piece.range).Pairwise Range.Precedes := by
  rw [map_range_pieces h hne, List.pairwise_flatMap]
  refine ⟨fun r hr => (tiles_piecesOf h hr).precedes, ?_⟩
  refine (cutRanges_precede h happart).imp_of_mem
    fun ha hb hab x hx y hy => ?_
  have hend := ((tiles_piecesOf h ha).within x hx).2.2
  have hstart := ((tiles_piecesOf h hb).within y hy).1
  exact le_trans hend (le_trans hab hstart)

/-- Each piece ends before the next one begins. -/
def PlaysInOrder (p : Project) : Prop :=
  (p.pieces.map Piece.range).IsChain Range.Precedes

/-- No instant of the recording is in two pieces. -/
def PlaysOnce (p : Project) : Prop :=
  ∀ t, (p.pieces.map Piece.range).countP (·.holds t) ≤ 1

/-- An export shows the recording in its order, and none of it twice, exactly
when no two of the ranges that it shows overlap. -/
theorem plays_in_order (p : Project) (h : p.HasFiniteTimes) :
    (p.PlaysInOrder ↔ p.shown.Pairwise Range.Apart) ∧
    (p.PlaysOnce ↔ p.shown.Pairwise Range.Apart) := by
  by_cases hnone : p.cutRanges = []
  · -- All of the recording is one piece then, and nothing is shown that could overlap.
    have hshown := (shown_eq_nil h).2 hnone
    have hpieces : p.pieces = [⟨0, p.duration, 1, none⟩] := by
      rw [pieces, if_pos (List.isEmpty_iff.2 ((cutPieces_eq_nil h).2 hnone))]
    rw [PlaysInOrder, PlaysOnce, hshown, hpieces]
    refine ⟨iff_of_true (List.IsChain.singleton _) .nil,
      iff_of_true (fun t => ?_) .nil⟩
    exact List.countP_le_length
  · have hforward := pieces_forward_of_ne_nil h hnone
    have honce : p.PlaysOnce ↔ p.shown.Pairwise Range.Apart := by
      rw [apart_iff_holds_once shown_forward]
      exact forall_congr' fun t => by rw [countP_pieces_holds h hnone]
    refine ⟨⟨fun horder => ?_, fun happart => ?_⟩, honce⟩
    · rw [← honce]
      refine (apart_iff_holds_once hforward).1 ?_
      exact ((pairwise_precedes hforward).1 horder).imp .inl
    · exact (pairwise_precedes hforward).2 (pieces_precede h hnone happart)

/-- Segments that touch, declared the wrong way round and cut once more where
the speed changes. -/
theorem plays_in_order_touching :
    (screenOnly 10 [⟨.null, 6, 9, true⟩, ⟨.null, 1, 6, true⟩]
      [⟨.null, 2, 7, 2⟩]).HasFiniteTimes ∧
    (screenOnly 10 [⟨.null, 6, 9, true⟩, ⟨.null, 1, 6, true⟩]
      [⟨.null, 2, 7, 2⟩]).PlaysInOrder ∧
    (screenOnly 10 [⟨.null, 6, 9, true⟩, ⟨.null, 1, 6, true⟩]
      [⟨.null, 2, 7, 2⟩]).PlaysOnce := by
  have hfin : (screenOnly 10 [⟨.null, 6, 9, true⟩, ⟨.null, 1, 6, true⟩]
      [⟨.null, 2, 7, 2⟩]).HasFiniteTimes := by
    refine screenOnly_hasFiniteTimes (by decide +kernel) ?_ ?_
    · simp only [List.forall_mem_cons]
      decide +kernel
    · simp only [List.forall_mem_cons]
      decide +kernel
  obtain ⟨horder, honce⟩ := plays_in_order _ hfin
  exact ⟨hfin, horder.2 (by decide +kernel), honce.2 (by decide +kernel)⟩

/-- Two enabled segments that overlap. -/
def overlapping : Project :=
  screenOnly 10 [⟨.null, 0, 5, true⟩, ⟨.null, 3, 8, true⟩] []

/-- The export goes back from second 5 to second 3, and shows what lies
between them twice. -/
theorem overlapping_plays_twice : overlapping.HasFiniteTimes ∧
    overlapping.pieces = [⟨0, 5, 1, none⟩, ⟨3, 8, 1, none⟩] ∧
    ¬ overlapping.PlaysInOrder ∧ ¬ overlapping.PlaysOnce := by
  have hpieces : overlapping.pieces = [⟨0, 5, 1, none⟩, ⟨3, 8, 1, none⟩] := by
    have hranges : overlapping.ranges = [⟨0, 5⟩, ⟨3, 8⟩] :=
      Range.sort_of_sorted (by decide +kernel) (by decide +kernel)
    rw [pieces, cutPieces, hranges, Edits.piecesOf_of_sorted (by decide +kernel)]
    decide +kernel
  refine ⟨screenOnly_hasFiniteTimes (by decide +kernel) ?_ ?_, hpieces, ?_, ?_⟩
  · simp only [List.forall_mem_cons]
    decide +kernel
  · rintro _ ⟨⟩
  · rw [PlaysInOrder, hpieces]
    decide +kernel
  · rw [PlaysOnce, hpieces]
    exact fun honce => absurd (honce 4) (by decide +kernel)

end Project

end Cutlist
