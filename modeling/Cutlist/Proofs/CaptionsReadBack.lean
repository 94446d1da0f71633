import Cutlist.FilterGraph.Caption
import Mathlib.Algebra.Ring.Parity
import Mathlib.Data.List.DropRight

/-!
# An escaped caption stands for one caption only

A caption is escaped by one substitution after another, each over the whole text
that the last one left. That this comes to one pass over the characters is due
to the order: what a substitution puts in is a backslash and a character that
has had its turn, and the backslashes have theirs first.

A pass is undone from left to right. It also leaves every mark behind an odd run
of backslashes: its own, and before that one a run which the characters in front
of it have left, and these come in pairs.
-/

namespace Cutlist.FilterGraph.Caption

/-! ## One pass -/

/-- The characters that have a meaning to the filter, apart from the backslash. -/
def isMark (c : Char) : Bool := c == ':' || c == '\'' || c == ',' || c == '%'

/-- How a character stands in an escaped caption. -/
def written (c : Char) : List Char :=
  if c = '\n' then ['\\', 'n']
  else if c = '\\' ∨ isMark c = true then ['\\', c]
  else [c]

/-- The caption with every character written out, in one pass. -/
def onePass (cs : List Char) : List Char := cs.flatMap written

theorem onePass_append (xs ys : List Char) :
    onePass (xs ++ ys) = onePass xs ++ onePass ys := List.flatMap_append

theorem onePass_cons (c : Char) (cs : List Char) :
    onePass (c :: cs) = written c ++ onePass cs := List.flatMap_cons

/-- Substitutions in a row, whatever they are, treat the two parts of a text
each by itself. -/
theorem foldl_substitute_append (steps : List (Char × List Char))
    (xs ys : List Char) :
    steps.foldl (fun cs s => substitute s.1 s.2 cs) (xs ++ ys) =
      steps.foldl (fun cs s => substitute s.1 s.2 cs) xs ++
        steps.foldl (fun cs s => substitute s.1 s.2 cs) ys := by
  induction steps generalizing xs ys with
  | nil => rfl
  | cons s steps ih =>
      rw [List.foldl_cons, List.foldl_cons, List.foldl_cons, substitute,
        List.flatMap_append]
      exact ih _ _

theorem escape_append (xs ys : List Char) :
    escape (xs ++ ys) = escape xs ++ escape ys :=
  foldl_substitute_append substitutions xs ys

theorem escape_singleton (c : Char) : escape [c] = written c := by
  by_cases hturn : c ∈ substitutions.map Prod.fst
  · have hall : (substitutions.map Prod.fst).all
        (fun x => escape [x] == written x) = true := by decide
    exact eq_of_beq (List.all_eq_true.1 hall c hturn)
  · simp only [substitutions, List.map_cons, List.map_nil, List.mem_cons,
      List.not_mem_nil, or_false, not_or] at hturn
    simp [escape, substitutions, substitute, written, isMark, hturn]

theorem escape_eq_onePass (cs : List Char) : escape cs = onePass cs := by
  induction cs with
  | nil => rfl
  | cons c cs ih =>
      rw [← List.singleton_append, escape_append, escape_singleton, ih,
        List.singleton_append, onePass_cons]

theorem ne_of_isMark {c d : Char} (hd : isMark d = true)
    (hc : isMark c = false) : d ≠ c := by
  rintro rfl
  rw [hd] at hc
  cases hc

theorem mem_written_iff {c d : Char} (hd : isMark d = true) :
    d ∈ written c ↔ d = c := by
  have hback : d ≠ '\\' := ne_of_isMark hd (by decide)
  rw [written]
  split
  · next hbreak =>
      subst hbreak
      have hletter : d ≠ 'n' := ne_of_isMark hd (by decide)
      have hline : d ≠ '\n' := ne_of_isMark hd (by decide)
      simp [hback, hletter, hline]
  · split <;> simp [hback]

/-- Escaping leaves the marks of a caption where they are. -/
theorem mem_escape_iff {d : Char} (hd : isMark d = true) {cs : List Char} :
    d ∈ escape cs ↔ d ∈ cs := by
  simp only [escape_eq_onePass, onePass, List.mem_flatMap, mem_written_iff hd,
    exists_eq_right']

/-! ## Reading it back -/

/-- What an escaped text stands for, from left to right: a backslash and an `n`
are the end of a line, and a backslash before anything else is for that
character. -/
def decode : List Char → List Char
  | '\\' :: 'n' :: cs => '\n' :: decode cs
  | '\\' :: c :: cs => c :: decode cs
  | c :: cs => c :: decode cs
  | [] => []

theorem decode_plain {c : Char} (hc : c ≠ '\\') (cs : List Char) :
    decode (c :: cs) = c :: decode cs := by
  rw [decode.eq_def]
  split
  all_goals simp_all

theorem decode_guarded {c : Char} (hc : c ≠ 'n') (cs : List Char) :
    decode ('\\' :: c :: cs) = c :: decode cs := decode.eq_2 c cs fun h => hc h

theorem decode_written (c : Char) (cs : List Char) :
    decode (written c ++ cs) = c :: decode cs := by
  rw [written]
  split
  · next hbreak =>
      subst hbreak
      rfl
  · split
    · next hguarded =>
        refine decode_guarded ?_ cs
        rintro rfl
        exact absurd hguarded (by decide)
    · next hplain => exact decode_plain (fun h => hplain (.inl h)) cs

theorem decode_onePass (cs : List Char) : decode (onePass cs) = cs := by
  induction cs with
  | nil => rfl
  | cons c cs ih => rw [onePass_cons, decode_written, ih]

/-! ## Runs of backslashes -/

/-- The length of the run of backslashes that a text ends with. -/
def backslashes (cs : List Char) : Nat := (cs.rtakeWhile (· == '\\')).length

/-- Every mark stands right behind an odd run of backslashes. -/
def Guarded (cs : List Char) : Prop :=
  ∀ before c after, cs = before ++ c :: after → isMark c = true →
    Odd (backslashes before)

theorem backslashes_concat (cs : List Char) (c : Char) :
    backslashes (cs ++ [c]) = if c = '\\' then backslashes cs + 1 else 0 := by
  by_cases hc : c = '\\'
  · rw [if_pos hc, backslashes, List.rtakeWhile_concat_pos _ _ _
      (by simpa using hc), List.length_append]
    rfl
  · rw [if_neg hc, backslashes, List.rtakeWhile_concat_neg _ _ _
      (by simpa using hc)]
    rfl

/-- What is written for a character leaves the pairs of backslashes before it
complete. -/
theorem backslashes_append_written (cs : List Char) (c : Char) :
    backslashes (cs ++ written c) = if c = '\\' then backslashes cs + 2
      else 0 := by
  have hpair : ∀ d, backslashes (cs ++ ['\\', d]) =
      if d = '\\' then backslashes cs + 2 else 0 := by
    intro d
    rw [List.append_cons, backslashes_concat, backslashes_concat, if_pos rfl]
  rw [written]
  split
  · next hbreak =>
      subst hbreak
      exact hpair 'n'
  · split
    · exact hpair c
    · next hplain =>
        rw [backslashes_concat, if_neg fun h => hplain (.inl h),
          if_neg fun h => hplain (.inl h)]

/-- What a pass leaves ends with pairs of backslashes, if with any. -/
theorem even_backslashes_onePass (cs : List Char) :
    Even (backslashes (onePass cs)) := by
  induction cs using List.reverseRecOn with
  | nil => exact Even.zero
  | append_singleton cs c ih =>
      have hlast : onePass [c] = written c := List.append_nil _
      rw [onePass_append, hlast, backslashes_append_written]
      split
      · exact ih.add even_two
      · exact Even.zero

theorem eq_of_mark_of_written {c d : Char} (hd : isMark d = true)
    {before after : List Char} (h : written c = before ++ d :: after) :
    before = ['\\'] := by
  have hpair : ∀ e, ['\\', e] = before ++ d :: after → before = ['\\'] := by
    intro e h
    match before with
    | [] => exact absurd (List.cons.inj h).1.symm (ne_of_isMark hd (by decide))
    | [b] => rw [(List.cons.inj h).1]
    | a :: b :: r => simp at h
  rw [written] at h
  split at h
  · exact hpair 'n' h
  · split at h
    · exact hpair c h
    · next hplain =>
        rcases List.append_eq_singleton_iff.1 h.symm with ⟨_, hmark⟩ | ⟨_, hnone⟩
        · obtain ⟨rfl, _⟩ := List.cons.inj hmark
          exact absurd (.inr hd) hplain
        · cases hnone

/-- A mark in what a pass leaves has its own backslash, and before that stands
what the pass has left of the characters in front. -/
theorem exists_of_mark_of_onePass {cs before after : List Char} {c : Char}
    (hc : isMark c = true) (h : onePass cs = before ++ c :: after) :
    ∃ front, before = onePass front ++ ['\\'] := by
  induction cs generalizing before with
  | nil => exact absurd h.symm (by simp [onePass])
  | cons x cs ih =>
      rw [onePass_cons, List.append_eq_append_iff] at h
      rcases h with ⟨rest, hbefore, hcs⟩ | ⟨rest, hwritten, hcs⟩
      · obtain ⟨front, hfront⟩ := ih hcs
        exact ⟨x :: front, by rw [hbefore, hfront, onePass_cons, List.append_assoc]⟩
      · cases rest with
        | nil =>
            have hstart : onePass cs = [] ++ c :: after := hcs.symm
            obtain ⟨front, hfront⟩ := ih hstart
            exact absurd hfront.symm (by simp)
        | cons y rest =>
            obtain ⟨rfl, _⟩ := List.cons.inj hcs
            exact ⟨[], eq_of_mark_of_written hc hwritten⟩

theorem guarded_onePass (cs : List Char) : Guarded (onePass cs) := by
  intro before c after h hc
  obtain ⟨front, rfl⟩ := exists_of_mark_of_onePass hc h
  rw [backslashes_concat, if_pos rfl]
  exact (even_backslashes_onePass front).add_one

theorem newline_notMem_onePass (cs : List Char) : '\n' ∉ onePass cs := by
  intro hmem
  obtain ⟨c, _, hc⟩ := List.mem_flatMap.1 hmem
  rw [written] at hc
  split at hc
  · exact absurd hc (by decide)
  · next hbreak =>
      split at hc
      · simp only [List.mem_cons, List.not_mem_nil, or_false] at hc
        rcases hc with hc | hc
        · exact absurd hc (by decide)
        · exact hbreak hc.symm
      · exact hbreak (List.mem_singleton.1 hc).symm

/-! ## Captions -/

/-- Escaping a caption is one pass over its characters, which is undone from
left to right, and which leaves no end of a line and every mark behind an odd
run of backslashes. So no two captions are written alike. -/
theorem escaped_reads_back :
    (∀ s, (escaped s).toList = onePass s.toList ∧
      decode (escaped s).toList = s.toList ∧
      '\n' ∉ (escaped s).toList ∧ Guarded (escaped s).toList) ∧
    Function.Injective escaped := by
  have hpass (s : String) : (escaped s).toList = onePass s.toList := by
    rw [escaped, String.toList_ofList, escape_eq_onePass]
  have hback (s : String) : decode (escaped s).toList = s.toList := by
    rw [hpass, decode_onePass]
  refine ⟨fun s => ⟨hpass s, hback s, ?_, ?_⟩, fun s t hst => ?_⟩
  · rw [hpass]
    exact newline_notMem_onePass s.toList
  · rw [hpass]
    exact guarded_onePass s.toList
  · rw [← String.toList_inj, ← hback s, hst, hback t]

/-- A backslash before an `n` and the end of a line stay apart. -/
example : escaped "\\n: \n" = "\\\\n\\: \\n" := by decide

end Cutlist.FilterGraph.Caption
