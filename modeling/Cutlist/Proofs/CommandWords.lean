import Cutlist.Proofs.NumberText
import Cutlist.Proofs.Unsought

/-!
# Options in an argument list

An argument list is a flat list of words, and which of them are options and
which are values is not written in it. So an option can only be looked up where
no value is spelled like it. The values that the program makes never are: they
end in a digit, in a bracket or in a name, or hold a character that no option
has. Of a path that the user gives it has to be assumed.

A list that is put together of options with their values, with the settings of
the encoder in between, can then be read as those pairs.
-/

namespace Cutlist

open FilterGraph Render Export

namespace Export.Command

/-! ## Options and their values -/

/-- The words right behind each occurrence of an option. -/
def valuesOf (option : String) : List String → List String
  | word :: value :: words =>
      if word = option then value :: valuesOf option (value :: words)
      else valuesOf option (value :: words)
  | _ => []

/-- The options that say what is read, what is filtered and what is written. -/
def marks : List String := ["-i", "-y", "-filter_complex", "-vf", "-map", "-an"]

/-- Options with their values as words. -/
def spell (pairs : List (String × String)) : List String :=
  pairs.flatMap fun pair => [pair.1, pair.2]

/-- The values of an option among pairs. -/
def lookupAll (option : String) (pairs : List (String × String)) :
    List String :=
  (pairs.filter fun pair => decide (pair.1 = option)).map Prod.snd

theorem valuesOf_nil (option : String) : valuesOf option [] = [] := rfl

theorem valuesOf_cons_of_ne {option word : String} (h : word ≠ option)
    (words : List String) :
    valuesOf option (word :: words) = valuesOf option words := by
  cases words with
  | nil => rfl
  | cons value words => rw [valuesOf, if_neg h]

theorem valuesOf_append_of_not_mem {option : String} {xs : List String}
    (h : option ∉ xs) (ys : List String) :
    valuesOf option (xs ++ ys) = valuesOf option ys := by
  induction xs with
  | nil => rfl
  | cons x xs ih =>
      obtain ⟨hx, hxs⟩ := List.ne_and_not_mem_of_not_mem_cons h
      rw [List.cons_append, valuesOf_cons_of_ne hx.symm, ih hxs]

/-- An option is looked up among pairs as it is in the words, as long as no
value is spelled like it. -/
theorem valuesOf_spell {option : String} {pairs : List (String × String)}
    (h : ∀ pair ∈ pairs, pair.2 ≠ option) (words : List String) :
    valuesOf option (spell pairs ++ words) =
      lookupAll option pairs ++ valuesOf option words := by
  induction pairs with
  | nil => rfl
  | cons pair pairs ih =>
      obtain ⟨hvalue, hrest⟩ := List.forall_mem_cons.1 h
      have hwords : spell (pair :: pairs) ++ words =
          pair.1 :: pair.2 :: (spell pairs ++ words) := rfl
      rw [hwords, valuesOf, valuesOf_cons_of_ne hvalue, ih hrest]
      by_cases hpair : pair.1 = option
      · simp [lookupAll, hpair]
      · simp [lookupAll, hpair]

theorem mem_spell {option : String} {pairs : List (String × String)}
    (h : ∀ pair ∈ pairs, pair.2 ≠ option) :
    option ∈ spell pairs ↔ ∃ pair ∈ pairs, pair.1 = option := by
  simp only [spell, List.mem_flatMap, List.mem_cons, List.not_mem_nil, or_false]
  constructor
  · rintro ⟨pair, hpair, hname | hvalue⟩
    · exact ⟨pair, hpair, hname.symm⟩
    · exact absurd hvalue.symm (h pair hpair)
  · rintro ⟨pair, hpair, hname⟩
    exact ⟨pair, hpair, .inl hname.symm⟩

theorem spell_append (xs ys : List (String × String)) :
    spell (xs ++ ys) = spell xs ++ spell ys := List.flatMap_append

/-! ## Words that are no option -/

theorem toPlain_unmarked (x : Binary64) : x.toPlain ∉ marks := by
  by_cases hx : x.isFinite = true
  · intro hmem
    have hnumeric := Binary64.numeric_toPlain hx
    have hother : ∀ word ∈ marks, ¬ Decimal.Numeric word.toList := by decide
    exact hother _ hmem hnumeric
  · cases x with
    | finite => exact absurd rfl hx
    | infinite s => cases s <;> decide
    | nan => decide

theorem bracketed_unmarked (l : Label) : l.bracketed ∉ marks :=
  not_mem_of_last (c := ']') (getLast?_append _ rfl) (by decide)

theorem fitVideo_unmarked (height : Int) :
    (Filter.fitVideo height).toText ∉ marks := by
  obtain ⟨c, hlast, hdigit⟩ := getLast?_fitVideo height
  exact not_mem_of_digit hlast hdigit (by decide)

theorem Settings.unmarked {words : List String} (h : Settings words) :
    ∀ word ∈ words, word ∉ marks :=
  fun word hword => (h word hword).not_mem (by decide) (by decide)

/-! ## Looking options up -/

theorem lookupAll_append (option : String) (xs ys : List (String × String)) :
    lookupAll option (xs ++ ys) = lookupAll option xs ++ lookupAll option ys := by
  rw [lookupAll, List.filter_append, List.map_append]
  rfl

theorem lookupAll_ne_nil {option : String} {pairs : List (String × String)} :
    lookupAll option pairs ≠ [] ↔ ∃ pair ∈ pairs, pair.1 = option := by
  rw [lookupAll, Ne, List.map_eq_nil_iff, List.filter_eq_nil_iff]
  simp

theorem lookupAll_eq_nil {option : String} {pairs : List (String × String)}
    (h : ∀ pair ∈ pairs, pair.1 ≠ option) : lookupAll option pairs = [] := by
  by_contra hne
  obtain ⟨pair, hpair, hname⟩ := lookupAll_ne_nil.1 hne
  exact h pair hpair hname

/-- A command: the inputs, the settings of the encoder, what is said of the
streams, perhaps that there is no sound, and the output. -/
structure Spelled (words : List String) (ins body : List (String × String))
    (isSilent : Prop) [Decidable isSilent] (output : String) : Prop where
  eq : ∃ front, Settings front ∧ words = spell ins ++ (front ++ (spell body ++
    if isSilent then ["-an"] else [])) ++ ["-y", output]
  unmarked : ∀ pair ∈ ins ++ body ++ [("-y", output)], pair.2 ∉ marks

namespace Spelled

variable {words : List String} {ins body : List (String × String)}
variable {isSilent : Prop} [Decidable isSilent] {output option : String}

/-- Nothing that a command holds looks like an option but the options. -/
theorem ne_option (h : Spelled words ins body isSilent output)
    (hoption : option ∈ marks) :
    (∀ pair ∈ ins, pair.2 ≠ option) ∧ (∀ pair ∈ body, pair.2 ≠ option) ∧
      output ≠ option := by
  have hall : ∀ pair ∈ ins ++ body ++ [("-y", output)], pair.2 ≠ option := by
    rintro pair hpair rfl
    exact h.unmarked pair hpair hoption
  rw [List.forall_mem_append, List.forall_mem_append,
    List.forall_mem_singleton] at hall
  exact ⟨hall.1.1, hall.1.2, hall.2⟩

theorem valuesOf_eq (h : Spelled words ins body isSilent output)
    (hoption : option ∈ marks) (hsound : option ≠ "-an") :
    valuesOf option words =
      lookupAll option (ins ++ body ++ [("-y", output)]) := by
  obtain ⟨hins, hbody, houtput⟩ := h.ne_option hoption
  obtain ⟨front, hfront, rfl⟩ := h.eq
  have hlast : option ∉ if isSilent then ["-an"] else [] := by
    split
    · rw [List.mem_singleton]
      exact hsound
    · exact List.not_mem_nil
  have hfront' : option ∉ front := fun hmem => hfront.unmarked _ hmem hoption
  have hspell : ["-y", output] = spell [("-y", output)] ++ [] := rfl
  rw [List.append_assoc, List.append_assoc, List.append_assoc,
    valuesOf_spell hins, valuesOf_append_of_not_mem hfront',
    valuesOf_spell hbody, valuesOf_append_of_not_mem hlast, hspell,
    valuesOf_spell (List.forall_mem_singleton.2 houtput), valuesOf_nil,
    List.append_nil, lookupAll_append, lookupAll_append, List.append_assoc]

theorem mem_iff (h : Spelled words ins body isSilent output)
    (hoption : option ∈ marks) :
    option ∈ words ↔ lookupAll option (ins ++ body ++ [("-y", output)]) ≠ [] ∨
      isSilent ∧ option = "-an" := by
  obtain ⟨hins, hbody, houtput⟩ := h.ne_option hoption
  obtain ⟨front, hfront, rfl⟩ := h.eq
  have hfront' : option ∉ front := fun hmem => hfront.unmarked _ hmem hoption
  have hspell : ["-y", output] = spell [("-y", output)] := rfl
  have hend : ∀ pair ∈ [("-y", output)], pair.2 ≠ option :=
    List.forall_mem_singleton.2 houtput
  have hlast : (option ∈ if isSilent then ["-an"] else []) ↔
      isSilent ∧ option = "-an" := by
    split
    · next hsilent => simp [hsilent]
    · next hsilent => simp [hsilent]
  rw [hspell, lookupAll_ne_nil]
  simp only [List.mem_append, mem_spell hins, mem_spell hbody, hfront', hlast,
    mem_spell hend, false_or, or_and_right,
    exists_or, or_assoc, or_comm, or_left_comm]

end Spelled

end Export.Command

end Cutlist
