import Cutlist.FilterGraph

/-!
# Pads get names of their own

A pad is named by a stem and a number, and the number counts the pads that the
stem has named before. No two pads are alike because a stem has no digits: the
name falls apart into its stem and its number in one way only. For the same
reason no pad is spelled like a stream of an input, whose name ends in a letter
after a colon.

`Taken` holds of the names that the counts say have been given out. A fresh
name is not among them, and is from then on.
-/

namespace Cutlist.FilterGraph

/-! ## Stems and numbers -/

/-- A stem is made of small letters and perhaps a line break. -/
theorem letter_of_mem_stem {s : String} (h : isStem s = true) {c : Char}
    (hc : c ∈ s.toList) : c = '\n' ∨ 'a' ≤ c := by
  rw [← List.mem_reverse] at hc
  simp only [isStem, Bool.and_eq_true, List.all_eq_true, decide_eq_true_eq] at h
  obtain ⟨_, hletters⟩ := h
  split at hletters
  · next r hr =>
      rw [hr] at hc
      rcases List.mem_cons.1 hc with rfl | hmem
      · exact .inl rfl
      · exact .inr (hletters c hmem).1
  · exact .inr (hletters c hc).1

theorem not_isDigit_of_mem_stem {s : String} (h : isStem s = true) {c : Char}
    (hc : c ∈ s.toList) : c.isDigit = false := by
  rcases letter_of_mem_stem h hc with rfl | hlow
  · rfl
  · rw [Bool.eq_false_iff]
    intro hdigit
    have := (Char.isDigit_iff_toNat.1 hdigit).2
    have : 'a'.toNat ≤ c.toNat := hlow
    have : '9'.toNat < 'a'.toNat := by decide
    omega

/-- The name of a pad. -/
def padName (stem : String) (n : Nat) : String := s!"{stem}{n}"

theorem toList_padName (stem : String) (n : Nat) :
    (padName stem n).toList = stem.toList ++ Nat.toDigits 10 n := by
  rw [← Nat.toList_repr, ← String.toList_append]
  rfl

theorem isDigit_of_mem_digits {n : Nat} {c : Char}
    (h : c ∈ Nat.toDigits 10 n) : c.isDigit = true :=
  Nat.isDigit_of_mem_toDigits (by decide) (by decide) h

/-- The letters of a name are its stem. -/
theorem filter_padName {stem : String} (h : isStem stem = true) (n : Nat) :
    (padName stem n).toList.filter (fun c => !c.isDigit) = stem.toList := by
  have hstem : stem.toList.filter (fun c => !c.isDigit) = stem.toList := by
    refine List.filter_eq_self.2 fun c hc => ?_
    rw [not_isDigit_of_mem_stem h hc]
    rfl
  have hdigits : (Nat.toDigits 10 n).filter (fun c => !c.isDigit) = [] := by
    refine List.filter_eq_nil_iff.2 fun c hc => ?_
    rw [isDigit_of_mem_digits hc]
    decide
  rw [toList_padName, List.filter_append, hstem, hdigits, List.append_nil]

theorem padName_inj {s t : String} {m n : Nat} (hs : isStem s = true)
    (ht : isStem t = true) (h : padName s m = padName t n) : s = t ∧ m = n := by
  have hstem : s = t := by
    rw [← String.toList_inj, ← filter_padName hs m, h, filter_padName ht n]
  subst hstem
  refine ⟨rfl, ?_⟩
  have hlists := congrArg String.toList h
  rw [toList_padName, toList_padName, List.append_cancel_left_eq] at hlists
  rw [← Nat.ofDigitChars_ten_toDigits (n := m), hlists,
    Nat.ofDigitChars_ten_toDigits]

theorem padName_ne_input (stem : String) (n index : Nat) (stream : Stream) :
    padName stem n ≠ (Label.input index stream).name := by
  intro h
  have hlists := congrArg (fun s => s.toList.getLast?) h
  simp only [toList_padName, List.getLast?_append] at hlists
  obtain ⟨c, hc⟩ := List.getLast?_isSome.2
    (Nat.toDigits_ne_nil (n := n) (b := 10))
    |> Option.isSome_iff_exists.1
  rw [hc] at hlists
  have hdigit := isDigit_of_mem_digits (List.mem_of_getLast? hc)
  have hname : (Label.input index stream).name.toList.getLast? = some 'a' ∨
      (Label.input index stream).name.toList.getLast? = some 'v' := by
    cases stream with
    | audio =>
        refine .inl ?_
        change (index.repr ++ ":a").toList.getLast? = _
        rw [String.toList_append, List.getLast?_append]
        rfl
    | video =>
        refine .inr ?_
        change (index.repr ++ ":v").toList.getLast? = _
        rw [String.toList_append, List.getLast?_append]
        rfl
  rcases hname with hname | hname
  · rw [hname] at hlists
    cases hlists
    cases hdigit
  · rw [hname] at hlists
    cases hlists
    cases hdigit

/-! ## Counting -/

theorem count_countUp (stem s : String) (used : List (String × Nat)) :
    count (countUp stem used) s =
      if s = stem then count used s + 1 else count used s := by
  induction used with
  | nil =>
      simp only [countUp, count, List.find?_cons, List.find?_nil]
      grind
  | cons entry used ih =>
      obtain ⟨t, n⟩ := entry
      simp only [count] at ih
      rw [countUp]
      split
      · next hstem =>
          subst hstem
          simp only [count, List.find?_cons]
          grind
      · simp only [count, List.find?_cons]
        grind

/-- A name that has been given out. -/
def Taken (used : List (String × Nat)) (l : Label) : Prop :=
  ∃ stem n, isStem stem = true ∧ n < count used stem ∧ l = .pad (padName stem n)

namespace Taken

variable {used : List (String × Nat)} {l : Label}

theorem not_isInput (h : Taken used l) : l.isInput = false := by
  obtain ⟨_, _, _, _, rfl⟩ := h
  rfl

theorem name_ne_input (h : Taken used l) (index : Nat) (stream : Stream) :
    l.name ≠ (Label.input index stream).name := by
  obtain ⟨stem, n, _, _, rfl⟩ := h
  exact padName_ne_input stem n index stream

theorem countUp (h : Taken used l) (stem : String) :
    Taken (FilterGraph.countUp stem used) l := by
  obtain ⟨s, n, hs, hn, rfl⟩ := h
  refine ⟨s, n, hs, ?_, rfl⟩
  rw [count_countUp]
  split <;> omega

end Taken

theorem taken_fresh {stem : String} (h : isStem stem = true)
    (used : List (String × Nat)) :
    Taken (countUp stem used) (.pad (padName stem (count used stem))) := by
  refine ⟨stem, count used stem, h, ?_, rfl⟩
  rw [count_countUp, if_pos rfl]
  omega

theorem not_taken_fresh {stem : String} (h : isStem stem = true)
    (used : List (String × Nat)) :
    ¬ Taken used (.pad (padName stem (count used stem))) := by
  rintro ⟨s, n, hs, hn, heq⟩
  obtain ⟨rfl, rfl⟩ := padName_inj h hs (Label.pad.inj heq)
  omega

end Cutlist.FilterGraph
