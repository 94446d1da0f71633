import Mathlib.Data.List.Nodup
import Cutlist.Proofs.Labels

/-!
# Pads are numbered stem by stem

Those who build a graph ask it for pads, one after another, and any text may
be given as a stem. A text that is none is refused, which ends nothing: the
graph can be asked again. The answers to one stem are numbered from zero, and
what else was asked in between has no part in it.

That no name is given out twice does not follow from the numbers alone, since
one stem may begin like another. It follows from `Taken`: a step gives out a
name that the counts say is not taken, and the counts say so of it ever after.
The run lemmas carry this from one end of a run to the other.
-/

namespace Cutlist.FilterGraph

/-! ## One question -/

/-- The answer to a text of whose stem there are `n` pads. -/
def answer (text : String) (n : Nat) : Except BuildError Label :=
  if isStem text then .ok (.pad (padName text n)) else .error (.stem text)

theorem answer_eq_ok {text : String} {n : Nat} {l : Label}
    (h : answer text n = .ok l) :
    isStem text = true ∧ l = .pad (padName text n) := by
  rw [answer] at h
  split at h
  · next hstem => exact ⟨hstem, (Except.ok.inj h).symm⟩
  · cases h

/-- The graph after a question. -/
def asked (g : FilterGraph) (text : String) : FilterGraph :=
  if isStem text then { g with used := countUp text g.used } else g

variable {g : FilterGraph} {l : Label}

theorem run_fresh (g : FilterGraph) (text : String) :
    (fresh text).run.run g = (answer text (count g.used text), g.asked text) := by
  rw [fresh, answer, asked]
  split <;> rfl

/-- A stem is counted on, and every other text keeps its count. -/
theorem count_asked {text s : String} (h : isStem s = true) :
    count (g.asked text).used s =
      if text = s then count g.used s + 1 else count g.used s := by
  rw [asked]
  split
  · rw [count_countUp]
    simp only [eq_comm]
  · next hrefused =>
      have hne : text ≠ s := fun heq => hrefused (heq ▸ h)
      rw [if_neg hne]

theorem Taken.asked (h : Taken g.used l) (text : String) :
    Taken (g.asked text).used l := by
  rw [FilterGraph.asked]
  split
  · exact h.countUp text
  · exact h

theorem taken_of_answer {text : String}
    (h : answer text (count g.used text) = .ok l) :
    Taken (g.asked text).used l := by
  obtain ⟨hstem, rfl⟩ := answer_eq_ok h
  rw [asked, if_pos hstem]
  exact taken_fresh hstem g.used

theorem not_taken_of_answer {text : String}
    (h : answer text (count g.used text) = .ok l) : ¬ Taken g.used l := by
  obtain ⟨hstem, rfl⟩ := answer_eq_ok h
  exact not_taken_fresh hstem g.used

/-! ## One question after another -/

/-- Asks for one pad after another and goes on if one is refused. -/
def askAll (texts : List String) :
    StateM FilterGraph (List (Except BuildError Label)) :=
  texts.mapM fun text => (fresh text).run

/-- The answers of a graph. -/
def answers (g : FilterGraph) (texts : List String) :
    List (Except BuildError Label) :=
  ((askAll texts).run g).1

/-- The graph after it gave its answers. -/
def askedAll (g : FilterGraph) (texts : List String) : FilterGraph :=
  ((askAll texts).run g).2

@[simp] theorem answers_nil (g : FilterGraph) : g.answers [] = [] := rfl

@[simp] theorem askedAll_nil (g : FilterGraph) : g.askedAll [] = g := rfl

theorem run_askAll_cons (g : FilterGraph) (text : String) (texts : List String) :
    (askAll (text :: texts)).run g =
      (answer text (count g.used text) :: (g.asked text).answers texts,
        (g.asked text).askedAll texts) := by
  rw [askAll, List.mapM_cons, StateT.run_bind, run_fresh]
  rfl

@[simp] theorem answers_cons (g : FilterGraph) (text : String)
    (texts : List String) :
    g.answers (text :: texts) =
      answer text (count g.used text) :: (g.asked text).answers texts := by
  rw [answers, run_askAll_cons]

@[simp] theorem askedAll_cons (g : FilterGraph) (text : String)
    (texts : List String) :
    g.askedAll (text :: texts) = (g.asked text).askedAll texts := by
  rw [askedAll, run_askAll_cons]

theorem answers_append (g : FilterGraph) (before after : List String) :
    g.answers (before ++ after) =
      g.answers before ++ (g.askedAll before).answers after := by
  induction before generalizing g with
  | nil => rfl
  | cons text before ih => simp [ih]

theorem askedAll_append (g : FilterGraph) (before after : List String) :
    g.askedAll (before ++ after) = (g.askedAll before).askedAll after := by
  induction before generalizing g with
  | nil => rfl
  | cons text before ih => simp [ih]

theorem length_answers (g : FilterGraph) (texts : List String) :
    (g.answers texts).length = texts.length := by
  induction texts generalizing g with
  | nil => rfl
  | cons text texts ih => simp [ih]

/-! ## The names of a run -/

/-- What was given out. -/
def given (answers : List (Except BuildError Label)) : List Label :=
  answers.filterMap Except.toOption

theorem mem_given {answers : List (Except BuildError Label)} :
    l ∈ given answers ↔ .ok l ∈ answers := by
  rw [given, List.mem_filterMap]
  refine ⟨?_, fun h => ⟨_, h, rfl⟩⟩
  rintro ⟨r, hmem, hr⟩
  cases r with
  | ok a =>
      cases hr
      exact hmem
  | error why => cases hr

theorem padName_of_mem_answers {texts : List String}
    (h : .ok l ∈ g.answers texts) :
    ∃ stem n, isStem stem = true ∧ l = .pad (padName stem n) := by
  induction texts generalizing g with
  | nil => cases h
  | cons text texts ih =>
      rcases List.mem_cons.1 (answers_cons g text texts ▸ h) with hhead | htail
      · exact ⟨text, _, answer_eq_ok hhead.symm⟩
      · exact ih htail

theorem not_taken_of_mem_answers {texts : List String}
    (h : .ok l ∈ g.answers texts) : ¬ Taken g.used l := by
  induction texts generalizing g with
  | nil => cases h
  | cons text texts ih =>
      rcases List.mem_cons.1 (answers_cons g text texts ▸ h) with hhead | htail
      · exact not_taken_of_answer hhead.symm
      · exact fun htaken => ih htail (htaken.asked text)

/-- The first pad is taken when the others are asked for. -/
theorem nodup_given (g : FilterGraph) (texts : List String) :
    (given (g.answers texts)).Nodup := by
  induction texts generalizing g with
  | nil => exact List.nodup_nil
  | cons text texts ih =>
      rw [answers_cons]
      cases hanswer : answer text (count g.used text) with
      | error why => exact ih _
      | ok l =>
          refine List.nodup_cons.2 ⟨fun hmem => ?_, ih _⟩
          exact not_taken_of_mem_answers (mem_given.1 hmem)
            (taken_of_answer hanswer)

theorem nodup_names (g : FilterGraph) (texts : List String) :
    ((given (g.answers texts)).map Label.name).Nodup := by
  refine (nodup_given g texts).map_on fun l hl l' hl' hname => ?_
  obtain ⟨_, _, -, rfl⟩ := padName_of_mem_answers (mem_given.1 hl)
  obtain ⟨_, _, -, rfl⟩ := padName_of_mem_answers (mem_given.1 hl')
  exact congrArg Label.pad hname

theorem mem_padName {stem : String} {n : Nat} {c : Char} (h : isStem stem = true)
    (hc : c ∈ (padName stem n).toList) :
    c = '\n' ∨ 'a' ≤ c ∨ c.isDigit = true := by
  rw [toList_padName, List.mem_append] at hc
  rcases hc with hstem | hdigit
  · exact (letter_of_mem_stem h hstem).imp_right .inl
  · exact .inr (.inr (isDigit_of_mem_digits hdigit))

/-- The characters that set labels, streams and chains apart. -/
def marks : List Char := ['[', ']', ':', ';']

theorem not_mem_marks {stem : String} {n : Nat} {c : Char}
    (h : isStem stem = true) (hc : c ∈ (padName stem n).toList) : c ∉ marks := by
  intro hmark
  have hnone : marks.all fun m =>
      decide (m ≠ '\n') && decide (m.toNat < 'a'.toNat) && !m.isDigit := by decide
  have hcnone := List.all_eq_true.1 hnone c hmark
  simp only [Bool.and_eq_true, decide_eq_true_eq, Bool.not_eq_true'] at hcnone
  obtain ⟨⟨hbreak, hlow⟩, hdigit⟩ := hcnone
  rcases mem_padName h hc with hc | hc | hc
  · exact hbreak hc
  · have : 'a'.toNat ≤ c.toNat := hc
    omega
  · rw [hdigit] at hc
    cases hc

/-! ## The answers to one text -/

/-- Those of the answers that were given to a text, in their order. -/
def answersTo (text : String) (texts : List String)
    (answers : List (Except BuildError Label)) : List (Except BuildError Label) :=
  ((texts.zip answers).filter (·.1 == text)).map (·.2)

theorem answersTo_cons (text t : String) (ts : List String)
    (a : Except BuildError Label) (as : List (Except BuildError Label)) :
    answersTo text (t :: ts) (a :: as) =
      if t = text then a :: answersTo text ts as else answersTo text ts as := by
  simp only [answersTo, List.zip_cons_cons, List.filter_cons, beq_iff_eq]
  split <;> rfl

/-- The pads of one stem are numbered on from where its count stands. -/
theorem answersTo_stem {stem : String} (h : isStem stem = true) (g : FilterGraph)
    (texts : List String) : answersTo stem texts (g.answers texts) =
      (List.range' (count g.used stem) (texts.count stem)).map
        fun n => .ok (.pad (padName stem n)) := by
  induction texts generalizing g with
  | nil => rfl
  | cons text texts ih =>
      rw [answers_cons, answersTo_cons, ih, count_asked h, List.count_cons]
      -- Only a question for this stem moves the count, and with it the range.
      by_cases heq : text = stem
      · subst heq
        simp [answer, h, List.range'_succ]
      · simp [heq]

theorem answersTo_refused {text : String} (h : isStem text = false)
    (g : FilterGraph)
    (texts : List String) : answersTo text texts (g.answers texts) =
      List.replicate (texts.count text) (.error (.stem text)) := by
  induction texts generalizing g with
  | nil => rfl
  | cons t texts ih =>
      rw [answers_cons, answersTo_cons, ih, List.count_cons]
      by_cases heq : t = text
      · subst heq
        simp [answer, h, List.replicate_succ]
      · simp [heq]

/-! ## The main result -/

/-- The answers of a graph that is asked for pads. -/
structure Numbered (g : FilterGraph) (texts : List String) : Prop where
  answered : (g.answers texts).length = texts.length
  distinct : ((given (g.answers texts)).map Label.name).Nodup
  /-- No name is read as that of a stream, and none ends before its end. -/
  plain : ∀ l ∈ given (g.answers texts), l.isInput = false ∧
    (∀ c ∈ l.name.toList, c ∉ marks) ∧
    ∀ index kind : String, l.name ≠ s!"{index}:{kind}"
  /-- Each stem is numbered from zero by those who ask for it. -/
  numbered : ∀ stem, isStem stem = true →
    answersTo stem texts (g.answers texts) =
      (List.range (texts.count stem)).map fun n => .ok (.pad s!"{stem}{n}")
  refused : ∀ text, isStem text = false →
    answersTo text texts (g.answers texts) =
      List.replicate (texts.count text) (.error (.stem text))
  /-- Without a question that was refused, all others are answered alike. -/
  unasked : ∀ before text after, texts = before ++ text :: after →
    isStem text = false →
      g.answers (before ++ after) = (g.answers texts).eraseIdx before.length ∧
        g.askedAll (before ++ after) = g.askedAll texts

/-- Every graph was new once, and all that it was asked since is a run like this
one. What else it holds has no part in the names. -/
theorem pads_numbered (inputs : List Input) (chains : List Chain)
    (texts : List String) :
    Numbered { inputs := inputs, chains := chains } texts where
  answered := length_answers _ texts
  distinct := nodup_names _ texts
  plain l hl := by
    obtain ⟨stem, n, hstem, rfl⟩ := padName_of_mem_answers (mem_given.1 hl)
    have hplain (c : Char) (hc : c ∈ (padName stem n).toList) : c ∉ marks :=
      not_mem_marks hstem hc
    refine ⟨rfl, hplain, fun index kind hname => ?_⟩
    have hcolon : ':' ∈ (padName stem n).toList := by
      change padName stem n = index ++ ":" ++ kind at hname
      rw [hname]
      simp
    exact hplain ':' hcolon (by decide)
  numbered stem hstem := by
    rw [answersTo_stem hstem, List.range_eq_range']
    rfl
  refused text htext := answersTo_refused htext _ texts
  unasked before text after htexts htext := by
    subst htexts
    have hstay (k : FilterGraph) : k.asked text = k := by
      rw [asked, htext]
      rfl
    rw [answers_append, answers_append, askedAll_append, askedAll_append,
      answers_cons, askedAll_cons, hstay]
    refine ⟨?_, rfl⟩
    rw [← length_answers { inputs := inputs, chains := chains } before,
      List.eraseIdx_append_of_length_le (Nat.le_refl _), Nat.sub_self,
      List.eraseIdx_cons_zero]

/-- A line break makes another stem, and a refusal leaves no gap. -/
example : (answers {} ["in", "i", "in\n", "1", "in", "i"]) =
    [.ok (.pad "in0"), .ok (.pad "i0"), .ok (.pad "in\n0"), .error (.stem "1"),
      .ok (.pad "in1"), .ok (.pad "i1")] := by decide

end Cutlist.FilterGraph
