import Cutlist.Json.Display
import Cutlist.Proofs.FixedPlaces

/-!
# How numbers look

Whatever the number, its text is made of few characters: digits, a point, signs
and the letter of an exponent. So a finite number is never spelled like an
option of a command and never holds a character that has a meaning in a graph.
Three ways to write a number are used, and they differ only in how the digits
are found and where the point stands.
-/

namespace Cutlist

namespace Decimal

/-- A character that a finite number is written with. -/
def isNumeric (c : Char) : Bool :=
  c.isDigit || ['.', '-', '+', 'e'].contains c

/-- Every character is one that numbers are written with. -/
def Numeric (cs : List Char) : Prop := ∀ c ∈ cs, isNumeric c = true

instance (cs : List Char) : Decidable (Numeric cs) :=
  List.decidableBAll (fun c => isNumeric c = true) cs

theorem Numeric.append {xs ys : List Char} (hx : Numeric xs)
    (hy : Numeric ys) : Numeric (xs ++ ys) := List.forall_mem_append.2 ⟨hx, hy⟩

theorem Numeric.cons {c : Char} {cs : List Char} (hc : isNumeric c = true)
    (h : Numeric cs) : Numeric (c :: cs) := List.forall_mem_cons.2 ⟨hc, h⟩

theorem Numeric.replicate {c : Char} (hc : isNumeric c = true) (n : Nat) :
    Numeric (List.replicate n c) := by
  intro x hx
  rw [(List.mem_replicate.1 hx).2]
  exact hc

theorem Numeric.sublist {xs ys : List Char} (h : Numeric ys)
    (hsub : xs.Sublist ys) : Numeric xs := fun c hc => h c (hsub.subset hc)

theorem isNumeric_of_isDigit {c : Char} (h : c.isDigit = true) :
    isNumeric c = true := by rw [isNumeric, h, Bool.true_or]

theorem numeric_digits (n : Nat) : Numeric (digits n) :=
  fun _ hc => isNumeric_of_isDigit (isDigit_of_mem_digits hc)

theorem numeric_padded (width n : Nat) : Numeric (padded width n) :=
  fun _ hc => isNumeric_of_isDigit (isDigit_of_mem_padded hc)

theorem numeric_minus (negative : Bool) : Numeric (minus negative) := by
  cases negative <;> decide

theorem numeric_pointed (places n : Nat) : Numeric (pointed places n) :=
  (numeric_digits _).append (.cons (by decide) (numeric_padded _ _))

namespace Scaled

theorem numeric_ofCoefficient (coefficient : Nat) (exponent : Int) :
    Numeric (ofCoefficient coefficient exponent).digits := by
  have hdrop : ((Decimal.digits coefficient).reverse.dropWhile
      (· == '0')).reverse.Sublist (Decimal.digits coefficient) := by
    rw [← List.reverse_sublist, List.reverse_reverse]
    exact List.dropWhile_sublist _
  exact (numeric_digits coefficient).sublist hdrop

variable {d : Scaled}

theorem numeric_positional (h : Numeric d.digits) : Numeric d.positional := by
  rw [positional]
  split
  · exact .cons (by decide) (.cons (by decide)
      ((Numeric.replicate (by decide) _).append h))
  · dsimp only
    split
    · exact h.append (.replicate (by decide) _)
    · exact (h.sublist (List.take_sublist ..)).append
        (.cons (by decide) (h.sublist (List.drop_sublist ..)))

theorem numeric_scientific (h : Numeric d.digits) : Numeric d.scientific := by
  refine ((h.sublist (List.take_sublist ..)).append ?_).append
    (.cons (by decide) (.cons ?_ (numeric_padded _ _)))
  · split
    · exact fun _ hc => nomatch hc
    · exact .cons (by decide) (h.sublist (List.drop_sublist ..))
  · split <;> decide

theorem numeric_general (h : Numeric d.digits) : Numeric d.general := by
  rw [general]
  split
  · dsimp only
    split
    · exact numeric_positional h
    · exact (numeric_positional h).append (by decide)
  · exact numeric_scientific h

end Scaled

end Decimal

namespace Binary64

open Decimal

theorem numeric_onGrid {q : Nat} {exponent : Int} {d : Scaled}
    (h : onGrid? q exponent = some d) : Numeric d.digits := by
  rw [onGrid?, Option.map_eq_some_iff] at h
  obtain ⟨coefficient, _, rfl⟩ := h
  exact Scaled.numeric_ofCoefficient _ _

/-- The first digits that are found are digits, and so are those that stand for
them when none are. -/
theorem numeric_getD_findSome {ks : List Nat} {find : Nat → Option Scaled}
    {other : Scaled} (hfind : ∀ k d, find k = some d → Numeric d.digits)
    (hother : Numeric other.digits) :
    Numeric ((ks.findSome? find).getD other).digits := by
  cases hfound : ks.findSome? find with
  | none => exact hother
  | some d =>
      obtain ⟨k, _, hk⟩ := List.exists_of_findSome?_eq_some hfound
      exact hfind k d hk

theorem numeric_shortest (q : Nat) : Numeric (shortest q).digits := by
  by_cases hq : q = 0
  · rw [shortest, if_pos hq]
    decide
  · have hsearch : shortest q = ((List.range 17).findSome? fun (k : Nat) =>
        onGrid? q (leadingExponent q - k)).getD
          (Scaled.ofCoefficient (q / unit) 0) := if_neg hq
    rw [hsearch]
    exact numeric_getD_findSome (fun k d => numeric_onGrid)
      (Scaled.numeric_ofCoefficient _ _)

theorem numeric_toString (n : Int) : Numeric (toString n).toList := by
  have hnat (m : Nat) : Numeric (toString m).toList := by
    rw [Nat.toString_eq_ofList_toDigits, String.toList_ofList]
    exact numeric_digits m
  cases n with
  | ofNat m => exact hnat m
  | negSucc m =>
      show Numeric ("-" ++ toString (m + 1)).toList
      rw [String.toList_append]
      exact .append (by decide) (hnat _)

variable {x : Binary64}

theorem numeric_toFixed (places : Nat) (hx : x.isFinite = true) :
    Numeric (x.toFixed places).toList := by
  cases x with
  | finite s q hq =>
      rw [toFixed, String.toList_ofList]
      exact (numeric_minus s).append (numeric_pointed _ _)
  | infinite s => cases hx
  | nan => cases hx

theorem numeric_toPlain (hx : x.isFinite = true) : Numeric x.toPlain.toList := by
  cases x with
  | finite s q hq =>
      rw [toPlain]
      split
      · exact numeric_toString _
      · rw [String.toList_ofList]
        exact (numeric_minus s).append
          (Scaled.numeric_positional (numeric_shortest q))
  | infinite s => cases hx
  | nan => cases hx

theorem numeric_toShortest (hx : x.isFinite = true) :
    Numeric x.toShortest.toList := by
  cases x with
  | finite s q hq =>
      rw [toShortest, String.toList_ofList]
      exact (numeric_minus s).append
        (Scaled.numeric_general (numeric_shortest q))
  | infinite s => cases hx
  | nan => cases hx

end Binary64

end Cutlist
