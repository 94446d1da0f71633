import Cutlist.Proofs.BlandText
import Cutlist.Proofs.CaptionsReadBack
import Cutlist.Proofs.Unsought

/-!
# Which texts of a graph are read as they were written

Everything in the text of a graph is made of names, numbers and fixed words,
except the colours and the captions, and none of the rest has a character with a
meaning to the reader. So whether a graph is read as it was written depends on
what is drawn and on nothing else, and the condition is exact. A caption stands
between quotes, where a backslash protects nothing: the quote in it ends the
span, although a backslash was put before it. A colour stands outside of quotes
and nothing is put before its characters.
-/

namespace Cutlist

open FilterGraph Render Export

namespace FilterGraph

open Quoting

/-! ## Texts with their quotes -/

def Window.markedText (w : Window) : List Mark :=
  unquoted "enable=" ++
    quoted s!"between(t,{w.start.toFixed 6},{w.stop.toFixed 6})"

/-- The text of a filter, with the quotes that it closes. -/
def Filter.markedText : Filter → List Mark
  | .crop scale x y =>
      let width := s!"iw/{scale.toFixed 6}"
      let height := s!"ih/{scale.toFixed 6}"
      unquoted s!"crop=w={width}:h={height}:x="
        ++ quoted s!"(iw-{width})/2+{x.toFixed 3}" ++ unquoted ":y="
        ++ quoted s!"(ih-{height})/2+{y.toFixed 3}"
  | .drawBox corner width height color opacity thickness window =>
      unquoted (s!"drawbox=x=iw*{corner.x.toFixed 6}:y=ih*{corner.y.toFixed 6}"
        ++ s!":w=iw*{width.toFixed 6}:h=ih*{height.toFixed 6}:color=")
        ++ (unquoted (color ++ "@")
        ++ (unquoted s!"{opacity.toFixed 3}:t={thickness}:" ++ window.markedText))
  | .drawText corner caption opacity window =>
      unquoted "drawtext=text=" ++ (quoted (Caption.escaped caption)
        ++ (unquoted (s!":x=w*{corner.x.toFixed 6}+10"
          ++ s!":y=h*{corner.y.toFixed 6}+10:fontsize=28:fontcolor=white@"
          ++ s!"{opacity.toFixed 3}:box=1:boxcolor=black@0.35:")
        ++ window.markedText))
  | f => unquoted f.toText

def Chain.markedText (c : Chain) : List Mark :=
  unquoted (String.join (c.inputs.map Label.bracketed)) ++
    ([⟨',', false⟩].intercalate (c.filters.map Filter.markedText) ++
      unquoted (String.join (c.outputs.map Label.bracketed)))

def markedText (g : FilterGraph) : List Mark :=
  [⟨';', false⟩].intercalate (g.chains.map Chain.markedText)

theorem Window.map_markedText (w : Window) :
    w.markedText.map Mark.char = w.toText.toList := by
  have hopen : "enable='between(t,".toList =
      "enable=".toList ++ '\'' :: "between(t,".toList := rfl
  have hclose : ")'".toList = ")".toList ++ ['\''] := rfl
  unfold markedText toText
  simp only [toString, List.map_append, text_unquoted, text_quoted,
    String.toList_append, List.append_assoc, List.cons_append, hopen, hclose]

theorem Filter.map_markedText (f : Filter) :
    f.markedText.map Mark.char = f.toText.toList := by
  cases f with
  | crop scale x y =>
      have hopen : ":x='(iw-".toList = ":x=".toList ++ '\'' :: "(iw-".toList :=
        rfl
      have hnext : "y='(ih-".toList = "y=".toList ++ '\'' :: "(ih-".toList := rfl
      have hbetween : "':".toList = '\'' :: ":".toList := rfl
      have hclose : "'".toList = ['\''] := rfl
      have hy : ":y=".toList = ":".toList ++ "y=".toList := rfl
      dsimp only [markedText, toText]
      simp only [toString, List.map_append, text_unquoted, text_quoted,
        String.toList_append, List.append_assoc, List.cons_append,
        List.nil_append, hopen, hnext, hbetween, hclose, hy]
  | drawBox corner width height color opacity thickness window =>
      dsimp only [markedText, toText]
      simp only [toString, List.map_append, text_unquoted, window.map_markedText,
        String.toList_append, List.append_assoc]
  | drawText corner caption opacity window =>
      have hopen : "drawtext=text='".toList =
        "drawtext=text=".toList ++ ['\''] := rfl
      have hclose : "':x=w*".toList = '\'' :: ":x=w*".toList := rfl
      dsimp only [markedText, toText]
      simp only [toString, List.map_append, text_unquoted, text_quoted,
        window.map_markedText, String.toList_append, List.append_assoc,
        List.cons_append, List.nil_append, hopen, hclose]
  | _ => exact text_unquoted _

theorem text_intercalate {α : Type} {f : α → List Mark} {t : α → String}
    (h : ∀ x, (f x).map Mark.char = (t x).toList) (sep : Char) (xs : List α) :
    ([⟨sep, false⟩].intercalate (xs.map f)).map Mark.char =
      ((String.singleton sep).intercalate (xs.map t)).toList := by
  rw [String.toList_intercalate, String.toList_singleton, List.map_map]
  induction xs with
  | nil => rfl
  | cons x xs ih =>
      cases xs with
      | nil => simp [List.intercalate_singleton, h]
      | cons y ys =>
          rw [intercalate_map, List.map_append, List.map_append, ih, h]
          exact List.intercalate_cons_cons.symm

theorem Chain.map_markedText (c : Chain) :
    c.markedText.map Mark.char = c.toText.toList := by
  rw [markedText, toText, List.map_append, List.map_append, text_unquoted,
    text_unquoted, text_intercalate Filter.map_markedText, String.toList_append,
    String.toList_append, List.append_assoc]
  rfl

/-- The marked text of a graph is its text. -/
theorem map_markedText (g : FilterGraph) :
    g.markedText.map Mark.char = g.toText.toList :=
  text_intercalate Chain.map_markedText ';' g.chains

/-! ## What a reader makes of a graph -/

/-- The spans of a filter end where it closes them. -/
def Filter.Closed : Filter → Prop
  | .drawBox _ _ _ color _ _ _ => '\'' ∉ bare color.toList
  | .drawText _ caption _ _ => '\'' ∉ caption.toList
  | _ => True

/-- The separators of chains in a filter whose spans are closed. -/
def Filter.separators : Filter → Nat
  | .drawBox _ _ _ color _ _ _ => (bare color.toList).count ';'
  | _ => 0

/-- A filter that a reader takes for one: there is no quote in its caption, and
in its colour neither a quote nor a semicolon that no backslash takes away. -/
def Filter.Inert (f : Filter) : Prop := f.Closed ∧ f.separators = 0

theorem Filter.inert_of_not_isDrawing {f : Filter} (h : f.isDrawing = false) :
    f.Inert := by
  cases f with
  | drawBox => cases h
  | drawText => cases h
  | _ => exact ⟨trivial, rfl⟩

/-- A quote in a caption is still there when it has been written out. -/
theorem mem_escaped {s : String} :
    '\'' ∈ (Caption.escaped s).toList ↔ '\'' ∈ s.toList := by
  rw [Caption.escaped, String.toList_ofList]
  exact Caption.mem_escape_iff rfl

theorem bland_quoted {s : String} (h : Bland s) : Reads 0 (quoted s) :=
  reads_quoted fun hmem => (h _ hmem).2.1 rfl

theorem Window.reads_markedText (w : Window) : Reads 0 w.markedText := by
  refine (Bland.reads (by decide)).append_zero (bland_quoted ?_)
  simp only [toString_text, bland_append, bland_toFixed, and_true]
  decide

/-- A filter whose spans are closed is read to its end. -/
theorem Filter.reads_markedText {f : Filter} (h : f.Authored) (hf : f.Closed) :
    Reads f.separators f.markedText := by
  cases f with
  | crop scale x y =>
      dsimp only [markedText]
      refine (((Bland.reads ?_).append_zero (bland_quoted ?_)).append_zero
        (Bland.reads (by decide))).append_zero (bland_quoted ?_)
      all_goals
        simp only [toString_text, bland_append, bland_toFixed, and_true]
        decide
  | drawBox corner width height color opacity thickness window =>
      dsimp only [markedText]
      refine (Bland.reads ?_).zero_append ((reads_bare hf).append_zero
        ((Bland.reads ?_).append_zero window.reads_markedText))
      all_goals
        simp only [toString_text, bland_append, bland_toFixed, bland_toString,
          and_true, true_and]
        decide
  | drawText corner caption opacity window =>
      dsimp only [markedText]
      refine (Bland.reads (by decide)).append_zero
        ((reads_quoted fun hmem => hf (mem_escaped.1 hmem)).append_zero
          ((Bland.reads ?_).append_zero window.reads_markedText))
      simp only [toString_text, bland_append, bland_toFixed, and_true, true_and]
      decide
  | _ => exact (bland_toText h rfl).reads

/-- A filter that has another quote leads a reader astray. -/
theorem Filter.misleads_markedText {f : Filter} (hf : ¬ f.Closed) :
    Misleads f.markedText := by
  cases f with
  | drawBox corner width height color opacity thickness window =>
      dsimp only [markedText]
      refine (Bland.reads ?_).misleads ?_
      · simp only [toString_text, bland_append, bland_toFixed, and_true]
        decide
      · -- The span runs on to the first quote of the window, which opens one.
        have hopen (mid inner : String) :
            unquoted (color ++ "@") ++
                (unquoted mid ++ (unquoted "enable=" ++ quoted inner)) =
              unquoted color ++ (unquoted ("@" ++ mid ++ "enable=") ++
                [⟨'\'', false⟩]) ++ (unquoted inner ++ [⟨'\'', true⟩]) := by
          simp only [unquoted_append, quoted, List.append_assoc,
            List.cons_append, List.nil_append]
        unfold Window.markedText
        rw [hopen]
        refine (misleads_bare (not_not.1 hf) ?_ ?_).append _
        · exact List.forall_mem_append.2
            ⟨isClosing_unquoted _, List.forall_mem_singleton.2 rfl⟩
        · rw [List.map_append]
          exact List.mem_append_right _ (List.mem_singleton.2 rfl)
  | drawText corner caption opacity window =>
      dsimp only [markedText]
      exact (Bland.reads (by decide)).misleads
        ((misleads_quoted (mem_escaped.2 (not_not.1 hf))).append _)
  | _ => exact absurd trivial hf

/-- A chain of which nothing but colours and captions is by somebody else. -/
structure Chain.Plain (c : Chain) : Prop where
  filters : ∀ f ∈ c.filters, f.Authored
  labels : ∀ l ∈ c.inputs ++ c.outputs, Bland l.name

def Chain.Closed (c : Chain) : Prop := ∀ f ∈ c.filters, f.Closed

/-- The separators of chains in a chain whose spans are closed. -/
def Chain.separators (c : Chain) : Nat := (c.filters.map Filter.separators).sum

theorem Chain.reads_markedText {c : Chain} (h : c.Plain) (hc : c.Closed) :
    Reads c.separators c.markedText := by
  obtain ⟨hinputs, houtputs⟩ := List.forall_mem_append.1 h.labels
  have hcomma : Reads 0 [⟨',', false⟩] := fun _ _ => rfl
  have hfilters := Reads.intercalate hcomma
    fun f hf => Filter.reads_markedText (h.filters f hf) (hc f hf)
  rw [Nat.mul_zero] at hfilters
  exact (Label.bland_join hinputs).reads.zero_append
    (hfilters.append_zero (Label.bland_join houtputs).reads)

theorem Chain.misleads_markedText {c : Chain} (h : c.Plain) (hc : ¬ c.Closed) :
    Misleads c.markedText := by
  obtain ⟨hinputs, _⟩ := List.forall_mem_append.1 h.labels
  refine (Label.bland_join hinputs).reads.misleads ((Misleads.intercalate
    (j := 0) (fun _ _ => rfl) (fun f hf => ?_) ?_).append _)
  · by_cases hclosed : f.Closed
    · exact .inl ⟨_, Filter.reads_markedText (h.filters f hf) hclosed⟩
    · exact .inr (Filter.misleads_markedText hclosed)
  · rw [Chain.Closed] at hc
    push Not at hc
    obtain ⟨f, hf, hopen⟩ := hc
    exact ⟨f, hf, Filter.misleads_markedText hopen⟩

/-- The number of chains that a reader splits the text of a graph into. -/
def chainsRead (g : FilterGraph) : Nat :=
  if g.markedText = [] then 0 else (read {} g.markedText).separators + 1

/-- A graph that is read as it was written: it splits into the chains that were
added, and every span ends at a quote that was written to close it. -/
structure Intact (g : FilterGraph) : Prop where
  chains : g.chainsRead = g.chains.length
  spans : (read {} g.markedText).isAstray = false
  ended : (read {} g.markedText).mode ≠ .quoted

variable {g : FilterGraph}

theorem markedText_ne_nil (hne : g.chains ≠ [])
    (hends : ∀ c ∈ g.chains, c.outputs ≠ []) : g.markedText ≠ [] := by
  intro hnil
  have hlast := Export.Command.getLast?_toText hne hends
  rw [← map_markedText, hnil] at hlast
  cases hlast

theorem read_markedText (h : ∀ c ∈ g.chains, c.Plain)
    (hclosed : ∀ c ∈ g.chains, c.Closed) :
    read {} g.markedText = ⟨.plain, (g.chains.map Chain.separators).sum +
      (g.chains.length - 1), false⟩ := by
  have hsemicolon : Reads 1 [⟨';', false⟩] := fun _ _ => rfl
  have hread := Reads.intercalate hsemicolon
    fun c hc => Chain.reads_markedText (h c hc) (hclosed c hc)
  rw [Nat.mul_one] at hread
  have hall := hread 0 false
  rwa [Nat.zero_add] at hall

theorem isAstray_markedText (h : ∀ c ∈ g.chains, c.Plain)
    (hopen : ¬ ∀ c ∈ g.chains, c.Closed) :
    (read {} g.markedText).isAstray = true := by
  refine Misleads.intercalate (j := 1) (fun _ _ => rfl) (fun c hc => ?_)
    ?_ 0 false
  · by_cases hclosed : c.Closed
    · exact .inl ⟨_, Chain.reads_markedText (h c hc) hclosed⟩
    · exact .inr (Chain.misleads_markedText (h c hc) hclosed)
  · push Not at hopen
    obtain ⟨c, hc, hnot⟩ := hopen
    exact ⟨c, hc, Chain.misleads_markedText (h c hc) hnot⟩

theorem inert_iff {c : Chain} :
    (∀ f ∈ c.filters, f.Inert) ↔ c.Closed ∧ c.separators = 0 := by
  simp only [Chain.Closed, Chain.separators, List.sum_eq_zero_iff, List.mem_map,
    forall_exists_index, and_imp, forall_apply_eq_imp_iff₂, Filter.Inert,
    forall_and]

theorem inert_drawn_iff {chains : List Chain} :
    (∀ f ∈ drawn chains, f.Inert) ↔
      (∀ c ∈ chains, c.Closed) ∧ (chains.map Chain.separators).sum = 0 := by
  have hall : (∀ f ∈ drawn chains, f.Inert) ↔
      ∀ c ∈ chains, ∀ f ∈ c.filters, f.Inert := by
    constructor
    · intro h c hc f hf
      cases hdraws : f.isDrawing with
      | false => exact Filter.inert_of_not_isDrawing hdraws
      | true =>
          refine h f (List.mem_filter.2 ⟨?_, hdraws⟩)
          exact List.mem_flatMap.2 ⟨c, hc, hf⟩
    · intro h f hf
      obtain ⟨c, hc, hmem⟩ := List.mem_flatMap.1 (List.mem_filter.1 hf).1
      exact h c hc f hmem
  rw [hall]
  simp only [inert_iff, List.sum_eq_zero_iff, List.mem_map,
    forall_exists_index, and_imp, forall_apply_eq_imp_iff₂, forall_and]

/-- A graph is read as it was written exactly when a reader takes every filter
in it for one. -/
theorem intact_iff (h : ∀ c ∈ g.chains, c.Plain)
    (hends : ∀ c ∈ g.chains, c.outputs ≠ []) :
    g.Intact ↔ ∀ f ∈ drawn g.chains, f.Inert := by
  rw [inert_drawn_iff]
  constructor
  · intro hintact
    have hclosed : ∀ c ∈ g.chains, c.Closed := by
      by_contra hopen
      have hstray := isAstray_markedText h hopen
      rw [hintact.spans] at hstray
      cases hstray
    refine ⟨hclosed, ?_⟩
    by_cases hnil : g.chains = []
    · rw [hnil]
      rfl
    · have hchains := hintact.chains
      rw [chainsRead, if_neg (markedText_ne_nil hnil hends),
        read_markedText h hclosed] at hchains
      have := List.length_pos_iff.2 hnil
      dsimp only at hchains
      omega
  · rintro ⟨hclosed, hnone⟩
    have hread := read_markedText h hclosed
    refine ⟨?_, by rw [hread], by rw [hread]; exact nofun⟩
    by_cases hnil : g.chains = []
    · rw [chainsRead, markedText, hnil]
      rfl
    · rw [chainsRead, if_neg (markedText_ne_nil hnil hends), hread, hnone]
      have := List.length_pos_iff.2 hnil
      dsimp only
      omega

end FilterGraph

end Cutlist
