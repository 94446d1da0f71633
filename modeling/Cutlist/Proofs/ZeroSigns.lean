import Cutlist.Decimal.Fixed
import Cutlist.Proofs.Rounding
import Mathlib.Data.List.Forall2
import Mathlib.Data.List.Basic

/-!
# The sign of a zero

Zero has a sign, which is seen where a number is written and nowhere else. Two
zeros compare alike with any number, a sum with one of them is a sum with the
other, and only where such a sum is itself a zero may its sign be another. So
numbers that are the same but for the sign of a zero can stand for each other in
everything that decides about a timeline.

Texts are alike that are put together of the same parts, except that where an
argument of the one is a zero the other may have a zero with another sign.
-/

namespace Cutlist

namespace Binary64

/-- The same number, but for the sign of a zero. -/
inductive Alike : Binary64 → Binary64 → Prop
  | same (a : Binary64) : Alike a a
  | zeros (s t : Bool) : Alike (zero s) (zero t)

theorem rank_zero (s : Bool) : (zero s).rank = some 0 := by
  cases s <;> rfl

/-- Finite numbers with the same ticks are alike. -/
theorem alike_of_ticks_eq {a b : Binary64} (ha : a.isFinite = true)
    (hb : b.isFinite = true) (h : a.ticks = b.ticks) : Alike a b := by
  by_cases hzero : b.ticks = 0
  · have eq_zero {x : Binary64} (hx : x.isFinite = true) (hticks : x.ticks = 0) :
        ∃ s, x = zero s := by
      cases x with
      | finite s q hq =>
          have hq0 : q = 0 := by
            cases s <;> simpa [ticks, signed] using hticks
          subst hq0
          exact ⟨s, rfl⟩
      | infinite s => cases hx
      | nan => cases hx
    obtain ⟨s, rfl⟩ := eq_zero ha (h.trans hzero)
    obtain ⟨t, rfl⟩ := eq_zero hb hzero
    exact .zeros s t
  · obtain rfl := eq_of_ticks_eq ha hb h hzero
    exact .same a

namespace Alike

variable {a b c d : Binary64}

theorem rank_eq (h : Alike a b) : a.rank = b.rank := by
  cases h with
  | same => rfl
  | zeros s t => rw [rank_zero, rank_zero]

theorem lt_iff (hab : Alike a b) (hcd : Alike c d) : a < c ↔ b < d := by
  change Below a c ↔ Below b d
  rw [Below, Below, hab.rank_eq, hcd.rank_eq]

theorem le_iff (hab : Alike a b) (hcd : Alike c d) : a ≤ c ↔ b ≤ d := by
  change AtMost a c ↔ AtMost b d
  rw [AtMost, AtMost, hab.rank_eq, hcd.rank_eq]

theorem neg (h : Alike a b) : Alike (-a) (-b) := by
  cases h with
  | same => exact .same _
  | zeros s t => exact .zeros (!s) (!t)

theorem abs_eq (h : Alike a b) : a.abs = b.abs := by
  cases h with
  | same => rfl
  | zeros s t => rfl

theorem add (hab : Alike a b) (hcd : Alike c d) : Alike (a + c) (b + d) := by
  have hsigned (s : Bool) : signed s 0 = 0 := by cases s <;> rfl
  change Alike (Binary64.add a c) (Binary64.add b d)
  cases hab with
  | same =>
      cases hcd with
      | same => exact .same _
      | zeros s t =>
          cases a with
          | finite u q hq =>
              simp only [Binary64.add, zero, hsigned, Int.add_zero]
              split
              · exact .zeros _ _
              · exact .same _
          | infinite u => exact .same _
          | nan => exact .same _
  | zeros s t =>
      cases hcd with
      | same =>
          cases c with
          | finite u q hq =>
              simp only [Binary64.add, zero, hsigned, Int.zero_add]
              split
              · exact .zeros _ _
              · exact .same _
          | infinite u => exact .same _
          | nan => exact .same _
      | zeros s' t' =>
          simp only [Binary64.add, zero, hsigned, Int.add_zero, if_true]
          exact .zeros _ _

theorem sub (hab : Alike a b) (hcd : Alike c d) : Alike (a - c) (b - d) :=
  hab.add hcd.neg

end Alike

end Binary64

/-! ## Texts -/

/-- Texts of the same parts, but for the signs of arguments that are zero. -/
inductive AlikeText : List Char → List Char → Prop
  | same (cs : List Char) : AlikeText cs cs
  | zeros (places : Nat) (s t : Bool) :
      AlikeText ('=' :: ((Binary64.zero s).toFixed places).toList)
        ('=' :: ((Binary64.zero t).toFixed places).toList)
  | append {as bs cs ds : List Char} (hfront : AlikeText as bs)
      (hback : AlikeText cs ds) : AlikeText (as ++ cs) (bs ++ ds)

/-- Words of a command that are alike as texts. -/
def AlikeWord (a b : String) : Prop := AlikeText a.toList b.toList

namespace AlikeWord

theorem refl (s : String) : AlikeWord s s := .same _

theorem append {a b c d : String} (hfront : AlikeWord a b)
    (hback : AlikeWord c d) : AlikeWord (a ++ c) (b ++ d) := by
  rw [AlikeWord, String.toList_append, String.toList_append]
  exact AlikeText.append hfront hback

theorem argument (places : Nat) {a b : Binary64} (h : a.Alike b) :
    AlikeWord ("=" ++ a.toFixed places) ("=" ++ b.toFixed places) := by
  cases h with
  | same => exact .same _
  | zeros s t =>
      rw [AlikeWord, String.toList_append, String.toList_append]
      exact .zeros places s t

theorem intercalate (sep : String) {as bs : List String}
    (h : List.Forall₂ AlikeWord as bs) :
    AlikeWord (sep.intercalate as) (sep.intercalate bs) := by
  rw [AlikeWord, String.toList_intercalate, String.toList_intercalate]
  induction h with
  | nil => exact .same _
  | @cons a b as bs hab hrest ih =>
      cases hrest with
      | nil =>
          simp only [List.map_cons, List.map_nil, List.intercalate_singleton]
          exact hab
      | cons _ _ =>
          simp only [List.map_cons] at ih ⊢
          rw [List.intercalate_cons_cons, List.intercalate_cons_cons]
          exact .append (.append hab (.same _)) ih

theorem forall₂_refl (words : List String) : List.Forall₂ AlikeWord words words :=
  List.forall₂_same.2 fun w _ => refl w

end AlikeWord

end Cutlist
