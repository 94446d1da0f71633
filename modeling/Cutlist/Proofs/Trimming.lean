import Cutlist.Proofs.WiredStages
import Mathlib.Data.List.Forall2

/-!
# Which chains trim what

An export cuts a stream by chains that begin with a trim. What the picture and
the sound of an export show of the recording is therefore read off the chains
that trim their streams: `trimming` picks them out, in the order in which they
were added, and `CutAlong` says that there is one for each piece of a timeline,
with the text that belongs to the piece, and that several are joined in order.

Every action only adds chains, so each stage is specified by the chains that it
adds. Most stages trim nothing. The others trim one label, and what they add
does not count for any other.
-/

namespace Cutlist.FilterGraph

/-! ## Chains that trim -/

def Filter.isTrim : Filter → Bool
  | .trim .. => true
  | _ => false

/-- The trims of a chain. -/
def Chain.trims (c : Chain) : List Filter := c.filters.filter Filter.isTrim

/-- The chains that trim a label. -/
def trimming (chains : List Chain) (source : Label) : List Chain :=
  chains.filter fun c => decide (source ∈ c.inputs) && !c.trims.isEmpty

/-- What a trim says of a piece, to the letter. -/
def trimText (q : Piece) : String :=
  s!"trim=start={q.start.toFixed 6}:end={q.stop.toFixed 6}"

/-- A chain trims a label to a piece and ends in one pad. -/
structure Shows (stream : Stream) (source : Label) (q : Piece) (c : Chain) :
    Prop where
  reads : c.inputs = [source]
  trims : c.trims.map Filter.toText = [stream.mark ++ trimText q]
  ends : ∃ l, c.outputs = [l]

/-- A label is trimmed to each of the pieces in order, and to nothing else, and
several pieces are joined in order. -/
structure CutAlong (chains : List Chain) (stream : Stream) (source : Label)
    (pieces : List Piece) : Prop where
  each : List.Forall₂ (Shows stream source) pieces (trimming chains source)
  joined : 1 < pieces.length → ∃ l,
    ⟨(trimming chains source).flatMap Chain.outputs,
      [.concat stream pieces.length], [l]⟩ ∈ chains

/-- A label is not trimmed. -/
def Uncut (chains : List Chain) (source : Label) : Prop :=
  trimming chains source = []

theorem trimming_append (xs ys : List Chain) (source : Label) :
    trimming (xs ++ ys) source = trimming xs source ++ trimming ys source :=
  List.filter_append ..

namespace Uncut

variable {xs ys : List Chain} {source : Label}

theorem nil : Uncut [] source := rfl

theorem append (hx : Uncut xs source) (hy : Uncut ys source) :
    Uncut (xs ++ ys) source := by
  rw [Uncut] at hx hy ⊢
  rw [trimming_append, hx, hy, List.append_nil]

/-- Chains that do not read a label do not trim it. -/
theorem of_not_mem (h : ∀ c ∈ xs, c.trims ≠ [] → source ∉ c.inputs) :
    Uncut xs source := by
  rw [Uncut, trimming, List.filter_eq_nil_iff]
  intro c hc
  simp only [Bool.and_eq_true, decide_eq_true_eq, Bool.not_eq_true',
    List.isEmpty_eq_false_iff, not_and]
  exact fun hmem htrims => h c hc htrims hmem

end Uncut

namespace CutAlong

variable {xs ys : List Chain} {stream : Stream} {source : Label}
variable {pieces : List Piece}

theorem append_left (h : CutAlong xs stream source pieces)
    (hy : Uncut ys source) : CutAlong (ys ++ xs) stream source pieces := by
  rw [Uncut] at hy
  constructor
  · rw [trimming_append, hy]
    exact h.each
  · intro hmore
    obtain ⟨l, hl⟩ := h.joined hmore
    rw [trimming_append, hy]
    exact ⟨l, List.mem_append_right _ hl⟩

theorem append_right (h : CutAlong xs stream source pieces)
    (hy : Uncut ys source) : CutAlong (xs ++ ys) stream source pieces := by
  rw [Uncut] at hy
  constructor
  · rw [trimming_append, hy, List.append_nil]
    exact h.each
  · intro hmore
    obtain ⟨l, hl⟩ := h.joined hmore
    rw [trimming_append, hy, List.append_nil]
    exact ⟨l, List.mem_append_left _ hl⟩

theorem not_uncut (h : CutAlong xs stream source pieces) (hne : pieces ≠ []) :
    ¬ Uncut xs source := by
  intro huncut
  have hlength := h.each.length_eq
  rw [Uncut] at huncut
  rw [huncut] at hlength
  exact hne (List.length_eq_zero_iff.1 hlength)

end CutAlong

/-! ## What an action adds -/

/-- An action adds chains, and they meet a condition with what it returns. -/
def Adds (excuse : Prop) {α : Type} (m : Build α)
    (P : α → List Chain → Prop) : Prop :=
  ∀ g, Meets excuse m g fun a g' => ∃ new, g'.chains = g.chains ++ new ∧ P a new

namespace Adds

variable {excuse : Prop} {α β : Type}

theorem pure {a : α} {P : α → List Chain → Prop} (h : P a []) :
    Adds excuse (Pure.pure a) P :=
  fun _ => .pure ⟨[], (List.append_nil _).symm, h⟩

theorem imp {m : Build α} {P Q : α → List Chain → Prop}
    (hm : Adds excuse m P) (h : ∀ a new, P a new → Q a new) :
    Adds excuse m Q :=
  fun g => (hm g).imp fun a _ ⟨new, hnew, ha⟩ => ⟨new, hnew, h a new ha⟩

theorem bind {m : Build α} {f : α → Build β} {P : α → List Chain → Prop}
    {Q : β → List Chain → Prop} (hm : Adds excuse m P)
    (hf : ∀ a new, P a new →
      Adds excuse (f a) fun b more => Q b (new ++ more)) :
    Adds excuse (m >>= f) Q := by
  intro g
  refine .bind (hm g) fun a g' ⟨new, hnew, ha⟩ => ?_
  refine (hf a new ha g').imp fun b g'' ⟨more, hmore, hb⟩ => ?_
  rw [hnew, List.append_assoc] at hmore
  exact ⟨new ++ more, hmore, hb⟩

theorem map {m : Build α} {f : α → β} {Q : β → List Chain → Prop}
    (hm : Adds excuse m fun a new => Q (f a) new) :
    Adds excuse (f <$> m) Q := fun g => .map (hm g)

/-- What is found out before adds nothing. -/
theorem ask {m : Build α} {f : α → Build β} {P : α → Prop}
    {Q : β → List Chain → Prop}
    (hm : ∀ g, Meets excuse m g fun a g' => g' = g ∧ P a)
    (hf : ∀ a, P a → Adds excuse (f a) Q) : Adds excuse (m >>= f) Q := by
  intro g
  refine .bind (hm g) fun a g' ⟨hg, ha⟩ => ?_
  subst hg
  exact hf a ha g'

theorem fresh {stem : String} {P : Label → List Chain → Prop}
    (hstem : isStem stem = true) (h : ∀ name, P (.pad name) []) :
    Adds excuse (FilterGraph.fresh stem) P :=
  fun _ => .fresh hstem ⟨[], (List.append_nil _).symm, h _⟩

/-- A name that is given out adds nothing. -/
theorem name {stem : String} {f : Label → Build β} {Q : β → List Chain → Prop}
    (hstem : isStem stem = true) (hf : ∀ l, Adds excuse (f l) Q) :
    Adds excuse (FilterGraph.fresh stem >>= f) Q := by
  refine .bind (.fresh (P := fun _ new => new = []) hstem fun _ => rfl)
    fun l new hnew => ?_
  subst hnew
  exact hf l

theorem addChain {inputs outputs : List Label} {filters : List Filter}
    {P : Unit → List Chain → Prop} (h : P () [⟨inputs, filters, outputs⟩]) :
    Adds excuse (FilterGraph.addChain inputs filters outputs) P :=
  fun _ => .addChain ⟨_, rfl, h⟩

theorem join {inputs : List Label} {filters : List Filter} {stem : String}
    {P : Label → List Chain → Prop} (hstem : isStem stem = true)
    (h : ∀ name, P (.pad name) [⟨inputs, filters, [.pad name]⟩]) :
    Adds excuse (FilterGraph.join inputs filters stem) P := by
  refine .bind (.fresh (P := fun l new => (∃ name, l = .pad name) ∧ new = [])
    hstem fun name => ⟨⟨name, rfl⟩, rfl⟩) fun l new ⟨⟨name, hname⟩, hnew⟩ => ?_
  subst hname hnew
  refine .bind (.addChain (P := fun _ new =>
    new = [⟨inputs, filters, [.pad name]⟩]) rfl) fun _ new hnew => .pure ?_
  subst hnew
  exact h name

theorem foldlM {f : β → α → Build β} (inv : β → List Chain → Prop)
    {xs : List α} (step : ∀ b new, ∀ x ∈ xs, inv b new →
      Adds excuse (f b x) fun b' more => inv b' (new ++ more))
    {b : β} (h : inv b []) : Adds excuse (xs.foldlM f b) inv := by
  intro g
  refine (Meets.foldlM (fun b todo g' => (∀ x ∈ todo, x ∈ xs) ∧
    ∃ new, g'.chains = g.chains ++ new ∧ inv b new)
    (fun b x todo g' ⟨hmem, new, hnew, hb⟩ => ?_)
    ⟨fun _ hx => hx, [], (List.append_nil _).symm, h⟩).imp
    fun b g' hdone => hdone.2
  refine (step b new x (hmem x (List.mem_cons_self ..)) hb g').imp
    fun b' g'' ⟨more, hmore, hb'⟩ =>
      ⟨fun y hy => hmem y (List.mem_cons_of_mem x hy), new ++ more, ?_, hb'⟩
  rw [hmore, hnew, List.append_assoc]

end Adds

/-- An action that trims nothing. -/
abbrev Still (excuse : Prop) {α : Type} (m : Build α) : Prop :=
  Adds excuse m fun _ new => ∀ source, Uncut new source

end Cutlist.FilterGraph
